import Mathlib.Data.List.Induction
import Mathlib.Data.List.Nodup
import Mathlib.Data.Set.Operations
import Patchbay.Formula.Basic
import Patchbay.Proofs.Encounters
/-!
What a node does not depend on.

In a frame all nodes work on one list and one table, and they are found
anew in every turn.  Still the turn of a node shows it nothing of the rest
of the graph but the cells of its producers, as they are before the frame or
after it.  `Graph.Agree` is the simulation that follows from this.  Two graphs
agree on a set of nodes when the nodes of the set are the same in both, when
all producers of these nodes are in the set, and when each producer stands on
the same side of its consumers in both.  Frames keep that, and so does every
edit of one of the graphs that spares the set.
-/

namespace Patchbay.Graph

variable [Formula.Engine]

/-- What is supplied to a node is a matter of the cells at its sources. -/
theorem supplyOf_congr {nodes nodes' : List Node} {n : Node}
    (h : ∀ i a, n.ports.source? i = some a → cellAt? nodes' n.id a = cellAt? nodes n.id a) :
    supplyOf nodes' n = supplyOf nodes n := by
  rw [supplyOf_eq, supplyOf_eq]
  apply List.map_congr_left
  intro p hp
  obtain ⟨i, hi⟩ := List.mem_iff_getElem?.mp hp
  cases ha : p.source with
  | none => rfl
  | some a => exact h i a (Directory.source?_eq_some.mpr ⟨p, hi, ha⟩)

/-! ## Graphs that agree on some nodes -/

/-- The nodes of a set are the same in two wired graphs, with all their producers, and each of
the producers precedes its consumer in both graphs or in neither. -/
structure Agree (S : Set NodeId) (g k : Graph) : Prop where
  left : g.Wired
  right : k.Wired
  node : ∀ x ∈ S, k.node? x = g.node? x
  closed : ∀ x ∈ S, ∀ i a, g.source? x i = some a → a.producer ∈ S
  order : ∀ x ∈ S, ∀ i a, g.source? x i = some a →
    (k.Precedes a.producer x ↔ g.Precedes a.producer x)
  clock : k.context.clock = g.context.clock

/-- The nodes of a set ask nothing of the outside. -/
def Idling (S : Set NodeId) (g : Graph) : Prop :=
  ∀ x ∈ S, ∀ n, g.node? x = some n → n.behavior.idle = true

variable {S : Set NodeId} {g k : Graph}

theorem Agree.source? (h : Agree S g k) {x : NodeId} (hx : x ∈ S) (i : Nat) :
    k.source? x i = g.source? x i := by
  rw [Graph.source?, Graph.source?, h.node x hx]

theorem Agree.symm (h : Agree S g k) : Agree S k g where
  left := h.right
  right := h.left
  node x hx := (h.node x hx).symm
  closed x hx i a ha := h.closed x hx i a (h.source? hx i ▸ ha)
  order x hx i a ha := (h.order x hx i a (h.source? hx i ▸ ha)).symm
  clock := h.clock.symm

/-- The edges that arrive at the nodes of the set are the same. -/
theorem Agree.edges (h : Agree S g k) {e : Edge} (he : e.consumer ∈ S) :
    e ∈ k.edges.edges ↔ e ∈ g.edges.edges := by
  rw [h.right.edge_iff, h.left.edge_iff, h.source? he]

/-! ## Frames -/

section Frames
variable (h : Agree S g k) (f : Clock → Clock) {poll poll' : Poll}
  (hplan : ∀ x ∈ S, ∀ n, g.node? x = some n →
    n.plan ((k.withClock f).moment poll') = n.plan ((g.withClock f).moment poll))
include h hplan

/-- The nodes that have had their turns on one side agree after the frame: by induction on the
order of that side, since what a node is shown at its turn is what its producers are before the
frame, or what they are after it when they precede the node. -/
theorem Agree.node_done {done todo : List NodeId} (hids : g.ids = done ++ todo) :
    ∀ x ∈ S, x ∈ done →
      ((k.withClock f).evaluate poll').node? x = ((g.withClock f).evaluate poll).node? x := by
  induction done using List.reverseRecOn generalizing todo with
  | nil =>
      intro x _ hdone
      exact absurd hdone List.not_mem_nil
  | append_singleton done y ih =>
      rw [List.append_assoc] at hids
      have hearlier := ih hids
      intro x hx hdone
      rcases List.mem_append.mp hdone with hdone | hlast
      · exact hearlier x hx hdone
      · obtain rfl := List.mem_singleton.mp hlast
        obtain ⟨n, hn⟩ := exists_node_of_mem_ids (g := g) (x := x) (by rw [hids]; simp)
        have hn' : k.node? x = some n := (h.node x hx).trans hn
        obtain ⟨done', rest', hids'⟩ := exists_place hn'
        rw [node?_after_frame h.left.nodup hids poll f hn,
          node?_after_frame h.right.nodup hids' poll' f hn']
        have hsupply : supplyOf (k.inFrame poll' f done').nodes n =
            supplyOf (g.inFrame poll f done).nodes n := by
          refine supplyOf_congr fun i a ha => ?_
          have hsource : g.source? x i = some a := source?_eq_some.mpr ⟨n, hn, ha⟩
          have hapart : a.producer ≠ n.id := by
            rw [id_of_node? hn]
            exact h.left.apart x i a hsource
          have hside : a.producer ∈ done' ↔ a.producer ∈ done := by
            rw [← precedes_iff h.right.nodup hids', ← precedes_iff h.left.nodup hids]
            exact h.order x hx i a hsource
          have hp : a.producer ∈ S := h.closed x hx i a hsource
          rw [cellAt?_of_ne hapart, cellAt?_of_ne hapart, cellOf?, cellOf?,
            node?_at_turn h.right.nodup hids', node?_at_turn h.left.nodup hids]
          by_cases hfirst : a.producer ∈ done
          · rw [if_pos hfirst, if_pos (hside.mpr hfirst), hearlier _ hp hfirst]
          · rw [if_neg hfirst, if_neg fun hmem => hfirst (hside.mp hmem), h.node _ hp]
        rw [hsupply, Node.takeTurn_congr (hplan x hx n hn)]

/-- A frame on both sides, in which the nodes of the set plan the same. -/
theorem Agree.frame :
    Agree S ((g.withClock f).evaluate poll) ((k.withClock f).evaluate poll') where
  left := (h.left.frame poll f).1
  right := (h.right.frame poll' f).1
  node x hx := by
    by_cases hmem : x ∈ g.ids
    · exact h.node_done f hplan (List.append_nil g.ids).symm x hx hmem
    · have hnone : g.node? x = none := nodeIn?_eq_none.mpr hmem
      have hmem' : x ∉ k.ids := nodeIn?_eq_none.mp ((h.node x hx).trans hnone)
      rw [← ids_evaluate poll f] at hmem
      rw [← ids_evaluate poll' f] at hmem'
      exact (nodeIn?_eq_none.mpr hmem').trans (nodeIn?_eq_none.mpr hmem).symm
  closed x hx i a ha := h.closed x hx i a ((h.left.frame poll f).2 x i a ha)
  order x hx i a ha := by
    rw [Precedes.congr (ids_evaluate poll' f k), Precedes.congr (ids_evaluate poll f g)]
    exact h.order x hx i a ((h.left.frame poll f).2 x i a ha)
  clock := by
    rw [context_frame, context_frame]
    exact congrArg f h.clock

end Frames

theorem Idling.frame (hidle : Idling S g) (hg : g.ids.Nodup) (poll : Poll) (f : Clock → Clock) :
    Idling S ((g.withClock f).evaluate poll) := by
  intro x hx m hm
  obtain ⟨n, done, rest, hn, -, rfl⟩ := exists_turn hg hm
  exact Node.idle_takeTurn (hidle x hx n hn) _ _

/-- Without loads it does not matter what is known of loads, nor where assets lie. -/
theorem Agree.frame_of_idling (h : Agree S g k) (hidle : Idling S g) (poll poll' : Poll)
    (f : Clock → Clock) :
    Agree S ((g.withClock f).evaluate poll) ((k.withClock f).evaluate poll') := by
  refine h.frame f fun x hx n hn => ?_
  have htime : ((k.withClock f).moment poll').elapsed = ((g.withClock f).moment poll).elapsed :=
    congrArg (fun clock => (f clock).elapsed) h.clock
  exact Behavior.plan_of_idle (hidle x hx n hn) htime n.id

/-- With loads the nodes agree when assets lie in the same place. -/
theorem Agree.frame_of_assetsRoot (h : Agree S g k)
    (hroot : k.context.assetsRoot = g.context.assetsRoot) (poll : Poll) (f : Clock → Clock) :
    Agree S ((g.withClock f).evaluate poll) ((k.withClock f).evaluate poll) := by
  refine h.frame f fun x hx n hn => ?_
  have hmoment : (k.withClock f).moment poll = (g.withClock f).moment poll := by
    have helapsed : (f k.context.clock).elapsed = (f g.context.clock).elapsed :=
      congrArg (fun clock => (f clock).elapsed) h.clock
    simp only [moment, withClock, helapsed, hroot]
  rw [hmoment]

/-- Frames on both sides. -/
theorem Agree.runFrames (frames : List Frame) {g k : Graph} (h : Agree S g k)
    (hloads : k.context.assetsRoot = g.context.assetsRoot ∨ Idling S g) :
    Agree S (g.runFrames frames) (k.runFrames frames) := by
  induction frames generalizing g k with
  | nil => exact h
  | cons frame frames ih =>
      obtain ⟨poll, f, hframe⟩ := frame.apply_eq
      show Agree S ((frame.apply g).runFrames frames) ((frame.apply k).runFrames frames)
      rw [hframe, hframe]
      rcases hloads with hroot | hidle
      · refine ih (h.frame_of_assetsRoot hroot poll f) (Or.inl ?_)
        rw [context_frame, context_frame]
        exact hroot
      · exact ih (h.frame_of_idling hidle poll poll f) (Or.inr (hidle.frame h.left.nodup poll f))

/-! ## The same nodes in another order -/

theorem mem_nodes_iff {g : Graph} (hg : g.ids.Nodup) {n : Node} :
    n ∈ g.nodes ↔ g.node? n.id = some n :=
  ⟨nodeIn?_of_mem hg, mem_of_nodeIn?⟩

/-- The same nodes, in whatever order, are those that have the same node under each identity. -/
theorem perm_nodes_iff (hg : g.ids.Nodup) (hk : k.ids.Nodup) :
    k.nodes.Perm g.nodes ↔ ∀ x, k.node? x = g.node? x := by
  rw [List.perm_ext_iff_of_nodup (List.Nodup.of_map _ hk) (List.Nodup.of_map _ hg)]
  constructor
  · intro hmem x
    apply Option.ext
    intro n
    constructor
    · intro hn
      obtain rfl := id_of_node? hn
      exact (mem_nodes_iff hg).mp ((hmem n).mp (mem_of_nodeIn? hn))
    · intro hn
      obtain rfl := id_of_node? hn
      exact (mem_nodes_iff hk).mp ((hmem n).mpr (mem_of_nodeIn? hn))
  · intro hnode n
    rw [mem_nodes_iff hk, mem_nodes_iff hg, hnode]

/-- The order of the turns counts along edges only: two graphs of the same nodes, of which each
edge has its ends in the same order in both, go on alike.  Whatever frames are run, the nodes
are the same in both and so are the edges.  Nodes that load meshes have to find them in the same
place. -/
theorem runFrames_of_reordered (hg : g.Reachable) (hk : k.Reachable)
    (hnodes : k.nodes.Perm g.nodes)
    (horder : ∀ e ∈ g.edges.edges,
      k.Precedes e.producer e.consumer ↔ g.Precedes e.producer e.consumer)
    (hclock : k.context.clock = g.context.clock)
    (hloads : k.context.assetsRoot = g.context.assetsRoot ∨
      ∀ n ∈ g.nodes, n.behavior.idle = true) (frames : List Frame) :
    (k.runFrames frames).nodes.Perm (g.runFrames frames).nodes ∧
      ∀ e, e ∈ (k.runFrames frames).edges.edges ↔ e ∈ (g.runFrames frames).edges.edges := by
  have hstart : Agree Set.univ g k := by
    refine ⟨hg.wired, hk.wired,
      fun x _ => (perm_nodes_iff hg.wired.nodup hk.wired.nodup).mp hnodes x,
      fun _ _ _ _ _ => Set.mem_univ _, fun x _ i a ha => ?_, hclock⟩
    obtain rfl := hg.wired.indexed x i a ha
    exact horder ⟨x, a⟩ ((hg.wired.edge_iff ⟨x, a⟩).mpr ha)
  have hlater := hstart.runFrames frames
    (hloads.imp_right fun hidle x _ n hn => hidle n (mem_of_nodeIn? hn))
  refine ⟨?_, fun e => hlater.edges (Set.mem_univ _)⟩
  rw [perm_nodes_iff hlater.left.nodup hlater.right.nodup]
  exact fun x => hlater.node x (Set.mem_univ x)

/-- A context that gives out the identity `n` next. -/
def nextAt (n : UInt32) : Context := { Context.new with nextId := n }

end Patchbay.Graph

/-! ## With the standard engine -/

namespace Patchbay.Graph

/-- A constant, the display that it feeds, and a colour before or behind them. -/
def colorFirst : Graph :=
  run [.add .color (nextAt 6), .add .value (nextAt 0), .add .display (nextAt 2),
    .connect ⟨0⟩ 0 ⟨2⟩ 0] (empty "color")

def colorLast : Graph :=
  run [.add .value (nextAt 0), .add .display (nextAt 2), .connect ⟨0⟩ 0 ⟨2⟩ 0,
    .add .color (nextAt 6)] (empty "color")

/-- The two graphs run their nodes in different orders, and have the same nodes after two
frames. -/
theorem runFrames_of_reordered_color :
    colorFirst.Reachable ∧ colorLast.Reachable ∧ colorLast.ids ≠ colorFirst.ids ∧
      colorLast.nodes.Perm colorFirst.nodes ∧
      (colorLast.runFrames [.step Poll.none 0, .tick Poll.none 5]).nodes.Perm
        (colorFirst.runFrames [.step Poll.none 0, .tick Poll.none 5]).nodes := by
  have hfirst : colorFirst.Reachable := ⟨_, _, rfl⟩
  have hlast : colorLast.Reachable := ⟨_, _, rfl⟩
  have hnodes : colorLast.nodes.Perm colorFirst.nodes := List.perm_append_singleton _ [_, _]
  have hlater := runFrames_of_reordered hfirst hlast hnodes (by decide) rfl (Or.inl rfl)
    [.step Poll.none 0, .tick Poll.none 5]
  exact ⟨hfirst, hlast, by decide, hnodes, hlater.1⟩

end Patchbay.Graph
