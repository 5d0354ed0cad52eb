import Patchbay.Formula.Basic
import Patchbay.Proofs.Likeness
import Patchbay.Proofs.RoundTrip
/-!
A load cannot be noticed later.

A graph and the one that was loaded from its scene differ in what a scene
leaves out: flags, marks, errors, the kinds that inputs last took, the time
and the order of the table.  `Graph.Follows` is the simulation between the
two.  It asks that both are sustained by the invariants of reachable graphs,
that a scene keeps the same of all their nodes, that their inputs read from
the same addresses, and that the behaviors of a node on the two sides are
related by a simulation of their own.  A turn of the same node on both sides
keeps it, so frames do, and it fixes the values on the outputs and the set of
edges.
-/

namespace Patchbay.Graph

open Bytes

/-! ## What the nodes are supplied with -/

variable [Formula.Engine]

/-- The value at an address can be seen from the contents of the nodes. -/
theorem value_cellOf? (g : Graph) (a : Address) :
    (g.cellOf? a).map Cell.value = ((g.nodes.map Node.content).find? (·.id == a.producer)).bind
      fun c => c.outputs[a.output.toNat]?.map Prod.snd := by
  rw [← node?_content, cellOf?]
  cases g.node? a.producer with
  | none => rfl
  | some n => exact n.ports.value_cell? a.output.toNat

/-- Alike nodes are supplied alike from nodes with the same contents. -/
theorem alike_supplyOf {g k : Graph} (h : k.nodes.map Node.content = g.nodes.map Node.content)
    {n m : Node} (hnm : n.Alike m) : (supplyOf g.nodes n).Alike (supplyOf k.nodes m) := by
  have hid : m.id = n.id := congrArg Content.id hnm.content
  intro i
  rw [supplied, supplied, hnm.source, hid]
  cases n.ports.source? i with
  | none => rfl
  | some a =>
      show (cellAt? k.nodes n.id a).map Cell.value = (cellAt? g.nodes n.id a).map Cell.value
      by_cases hself : a.producer = n.id
      · rw [cellAt?, cellAt?, if_pos hself, if_pos hself]
      · rw [cellAt?_of_ne hself, cellAt?_of_ne hself, value_cellOf?, value_cellOf?, h]

/-! ## The simulation -/

/-- The second graph goes on as the first one does, if the next turns are in the order of
`turns`; the behaviors of their nodes are related. -/
structure Follows (R : Behavior → Behavior → Prop) (turns : List NodeId) (g k : Graph) : Prop where
  left : Sustained turns g
  right : Sustained turns k
  content : k.nodes.map Node.content = g.nodes.map Node.content
  source : ∀ c i, k.source? c i = g.source? c i
  related : ∀ x n m, g.node? x = some n → k.node? x = some m → R n.behavior m.behavior

variable {g k : Graph}

theorem map_content_replace (id : NodeId) (n : Node) (nodes : List Node) :
    (changeNode id (fun _ => n) nodes).map Node.content =
      (nodes.map Node.content).map fun c => if c.id = id then n.content else c := by
  rw [changeNode, List.map_map, List.map_map]
  apply List.map_congr_left
  intro m _
  show (if m.id = id then n else m).content = if m.id = id then n.content else m.content
  split <;> rfl

namespace Follows

variable {R : Behavior → Behavior → Prop} {turns : List NodeId}

theorem node (h : Follows R turns g k) {x : NodeId} {n : Node} (hn : g.node? x = some n) :
    ∃ m, k.node? x = some m ∧ n.Alike m := by
  obtain ⟨m, hm, hcontent⟩ := node?_of_content h.content hn
  refine ⟨m, hm, hcontent, fun i => ?_⟩
  have hsource := h.source x i
  rw [source?, source?, hn, hm] at hsource
  exact hsource

/-- The same edges are in the tables of both. -/
theorem edges (h : Follows R turns g k) (e : Edge) : e ∈ k.edges.edges ↔ e ∈ g.edges.edges := by
  rw [h.left.1.1.edge_iff, h.right.1.1.edge_iff, h.source]

theorem withClock (h : Follows R turns g k) (f : Clock → Clock) :
    Follows R turns (g.withClock f) (k.withClock f) where
  left := sustained_invariant.context _ trivial h.left
  right := sustained_invariant.context _ trivial h.right
  content := h.content
  source := h.source
  related := h.related

variable (hR : Behavior.Simulation R)
include hR

/-- A turn on both sides, at whatever times. -/
theorem turn {id : NodeId} {rest : List NodeId} (h : Follows R (id :: rest) g k)
    (now now' : Moment) : Follows R (rest ++ [id]) (runNode now g id) (runNode now' k id) := by
  obtain ⟨n, hn⟩ := h.left.1.2.exists_next
  obtain ⟨m, hm, halike⟩ := h.node hn
  obtain ⟨hturn, hrelated⟩ := halike.takeTurn hR (h.related id n m hn hm)
    (alike_supplyOf h.content halike) (h.left.1.1.ports_indexed hn) (h.right.1.1.ports_indexed hm)
    (h.left.copied hn now) (h.right.copied hm now')
  refine ⟨sustained_invariant.turn now trivial h.left, sustained_invariant.turn now' trivial h.right,
    ?_, fun c i => ?_, fun x n' m' hn' hm' => ?_⟩
  · rw [runNode_eq hn, runNode_eq hm]
    show (changeNode id _ k.nodes).map Node.content = (changeNode id _ g.nodes).map Node.content
    rw [map_content_replace, map_content_replace, h.content, hturn.content]
  · by_cases hc : c = id
    · rw [source?, source?, node?_runNode hn, node?_runNode hm, if_pos hc, if_pos hc]
      exact hturn.source i
    · rw [source?, source?, node?_runNode hn, node?_runNode hm, if_neg hc, if_neg hc]
      exact h.source c i
  · rw [node?_runNode hn] at hn'
    rw [node?_runNode hm] at hm'
    by_cases hx : x = id
    · rw [if_pos hx] at hn' hm'
      cases hn'
      cases hm'
      exact hrelated
    · rw [if_neg hx] at hn' hm'
      exact h.related x n' m' hn' hm'

theorem frame (h : Follows R g.ids g k) (poll : Poll) (f : Clock → Clock) :
    Follows R ((g.withClock f).evaluate poll).ids ((g.withClock f).evaluate poll)
      ((k.withClock f).evaluate poll) := by
  have hids : ((g.withClock f).evaluate poll).ids = g.ids := Invariant.ids_turns _ _ _
  have hcopy : (k.withClock f).ids = g.ids := ids_of_content h.content
  have hstart : Follows R (g.ids ++ []) (g.withClock f) (k.withClock f) := by
    rw [List.append_nil]
    exact h.withClock f
  have hturns := foldl_turns
    (fun h => h.turn hR ((g.withClock f).moment poll) ((k.withClock f).moment poll)) hstart
  rw [hids]
  unfold evaluate
  rw [hcopy]
  exact hturns

end Follows

/-! ## Frames after a load -/

/-- A frame by a fixed step, or to a reading of the wall clock. -/
inductive Frame where
  | step (poll : Poll) (dt : Nat)
  | tick (poll : Poll) (now : Nat)

def Frame.apply : Frame → Graph → Graph
  | step poll dt, g => g.step poll dt
  | tick poll now, g => g.tick poll now

/-- A frame is a reading of the clock and a turn of every node. -/
theorem Frame.apply_eq (frame : Frame) :
    ∃ poll f, ∀ g : Graph, frame.apply g = (g.withClock f).evaluate poll := by
  cases frame with
  | step poll dt => exact ⟨poll, (·.step dt), fun _ => rfl⟩
  | tick poll now => exact ⟨poll, (·.tick now), fun _ => rfl⟩

/-- The graph after some frames. -/
def runFrames (frames : List Frame) (g : Graph) : Graph := frames.foldl (fun g f => f.apply g) g

theorem Follows.runFrames {R : Behavior → Behavior → Prop} (hR : Behavior.Simulation R)
    (frames : List Frame) {g k : Graph} (h : Follows R g.ids g k) :
    Follows R (g.runFrames frames).ids (g.runFrames frames) (k.runFrames frames) := by
  induction frames generalizing g k with
  | nil => exact h
  | cons f frames ih =>
      cases f with
      | step poll dt => exact ih (h.frame hR poll (·.step dt))
      | tick poll now => exact ih (h.frame hR poll (·.tick now))

/-- The second graph looks like the first one, all of whose nodes are of types that resume. -/
structure Mirrors (turns : List NodeId) (g k : Graph) : Prop where
  left : Sustained turns g
  right : Sustained turns k
  resumes : ∀ n ∈ g.nodes, n.type.resumes = true
  content : k.nodes.map Node.content = g.nodes.map Node.content
  source : ∀ c i, k.source? c i = g.source? c i

theorem Mirrors.runFrames (frames : List Frame) {g k : Graph} (h : Mirrors g.ids g k) :
    Follows Behavior.Resumed (g.runFrames frames).ids (g.runFrames frames) (k.runFrames frames) := by
  refine Follows.runFrames Behavior.simulation_resumed frames
    ⟨h.left, h.right, h.content, h.source, fun x n m hn hm => ?_⟩
  obtain ⟨m', hm', hcontent⟩ := node?_of_content h.content hn
  rw [hm] at hm'
  cases hm'
  exact ⟨h.resumes n (mem_of_nodeIn? hn), congrArg Content.behavior hcontent⟩

/-- Wired graphs with the same edges have the same sources. -/
theorem Wired.source?_congr (hg : g.Wired) (hk : k.Wired)
    (h : ∀ e, e ∈ k.edges.edges ↔ e ∈ g.edges.edges) (c : NodeId) (i : Nat) :
    k.source? c i = g.source? c i := by
  apply Option.ext
  intro a
  constructor
  · intro ha
    have hi := hk.indexed c i a ha
    subst hi
    exact (hg.edge_iff ⟨c, a⟩).mp ((h _).mp ((hk.edge_iff ⟨c, a⟩).mpr ha))
  · intro ha
    have hi := hg.indexed c i a ha
    subst hi
    exact (hk.edge_iff ⟨c, a⟩).mp ((h _).mpr ((hg.edge_iff ⟨c, a⟩).mpr ha))

/-- Without lists, which alone may have too many inputs to count, a graph can be saved. -/
theorem storable_of_listless (hsize : g.save.length < sizeLimit)
    (hlists : ∀ n ∈ g.nodes, n.type ≠ .list) : g.Storable where
  size := hsize
  inputs n hn hlist := absurd hlist (hlists n hn)

/-- What is loaded from the scene of a graph looks like it and is wired like it. -/
theorem exists_load_alike (h : g.Reachable) (hs : g.Storable) (k : Graph) :
    ∃ g', k.load g.save = (.ok (), g') ∧ Sustained g.ids g' ∧
      g'.nodes.map Node.content = g.nodes.map Node.content ∧
      ∀ c i, g'.source? c i = g.source? c i := by
  obtain ⟨g', hload, hcontent, hedges, -⟩ := exists_load h hs k
  have hsame : ∀ e, e ∈ g'.edges.edges ↔ e ∈ g.edges.edges := by
    intro e
    rw [hedges]
    exact h.wired.mem_edgesByProducer
  have hloaded : Sustained g'.ids g' := by
    have hsustained := sustained_invariant.load k g.save
    rw [hload] at hsustained
    exact hsustained
  refine ⟨g', hload, ?_, hcontent, h.wired.source?_congr hloaded.1.1 hsame⟩
  rw [← ids_of_content hcontent]
  exact hloaded

/-- A reachable graph of nodes that resume, and what is loaded from its scene, go on alike: after
whatever frames the contents of all nodes are the same, the values on their outputs among them,
and the edges are. -/
theorem runFrames_load_save (h : g.Reachable) (hsize : g.save.length < sizeLimit)
    (hresumes : ∀ n ∈ g.nodes, n.type.resumes = true) (k : Graph) (frames : List Frame) :
    (k.load g.save).1 = .ok () ∧
      ((k.load g.save).2.runFrames frames).nodes.map Node.content =
        (g.runFrames frames).nodes.map Node.content ∧
      ∀ e, e ∈ ((k.load g.save).2.runFrames frames).edges.edges ↔
        e ∈ (g.runFrames frames).edges.edges := by
  have hlists : ∀ n ∈ g.nodes, n.type ≠ .list := by
    intro n hn hlist
    have hresumed := hresumes n hn
    rw [hlist] at hresumed
    exact nomatch hresumed
  obtain ⟨g', hload, hloaded, hcontent, hsource⟩ :=
    exists_load_alike h (storable_of_listless hsize hlists) k
  have hstart : Mirrors g.ids g g' :=
    ⟨sustained_invariant.of_reachable h, hloaded, hresumes, hcontent, hsource⟩
  rw [hload]
  have hlater := hstart.runFrames frames
  exact ⟨rfl, hlater.content, hlater.edges⟩

end Patchbay.Graph

/-! ## With the standard engine -/

namespace Patchbay.Graph

open Bytes

/-- The camera and the display of `waitingCamera` after three frames of the graph and of its copy:
the mode that waited has been taken over on both sides. -/
theorem runFrames_load_save_of_waitingCamera :
    waitingCamera.Reachable ∧ waitingCamera.save.length < sizeLimit ∧
      (∀ n ∈ waitingCamera.nodes, n.type.resumes = true) ∧
      (((empty "copy").load waitingCamera.save).2.runFrames
          [.step Poll.none 1, .tick Poll.none 0, .step Poll.none 5]).nodes.map Node.content =
        (waitingCamera.runFrames
          [.step Poll.none 1, .tick Poll.none 0, .step Poll.none 5]).nodes.map Node.content := by
  have hreachable : waitingCamera.Reachable := ⟨_, _, rfl⟩
  have hresumes : ∀ n ∈ waitingCamera.nodes, n.type.resumes = true := by decide
  have hlater := runFrames_load_save hreachable storable_waitingCamera.size hresumes (empty "copy")
    [.step Poll.none 1, .tick Poll.none 0, .step Poll.none 5]
  exact ⟨hreachable, storable_waitingCamera.size, hresumes, hlater.2.1⟩

end Patchbay.Graph
