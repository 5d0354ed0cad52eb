import Mathlib.Data.List.Forall2
import Mathlib.Data.List.Nodup
import Patchbay.Formula.Basic
import Patchbay.Proofs.Removals
/-!
What else changes when a node is removed.

The edges that start at the node are taken from the table first, and their
consumers lose a source for each of them, edge by edge.  So one consumer may
be visited several times, in the order of the table, which has nothing to do
with the order of its inputs.  `Node.Severed` says what a consumer is when
all visits are over, in terms of its own ports: the inputs that read from
the node that is gone have no source, and the behavior has been told of each
of these losses once.  That the visits come to this is where the table and
the ports have to agree (`Graph.Wired`).
-/

namespace Patchbay

/-! ## The losses of a node -/

namespace InputPort

/-- The source that the input loses when a producer goes, under the input's name. -/
def loss? (producer : NodeId) (p : InputPort) : Option Dropped :=
  (p.source.filter (·.producer == producer)).map fun a => ⟨p.name, a⟩

/-- The input without its source, if that is at the producer. -/
def severed (producer : NodeId) (p : InputPort) : InputPort :=
  if (p.loss? producer).isSome then p.detach else p

theorem loss?_eq_some {producer : NodeId} {p : InputPort} {x : Dropped} :
    p.loss? producer = some x ↔
      p.source = some x.address ∧ x.address.producer = producer ∧ x.name = p.name := by
  obtain ⟨name, a⟩ := x
  simp only [loss?, Option.map_eq_some_iff, Option.filter_eq_some_iff, beq_iff_eq, Dropped.mk.injEq]
  constructor
  · rintro ⟨b, ⟨hb, hproducer⟩, rfl, rfl⟩
    exact ⟨hb, hproducer, rfl⟩
  · rintro ⟨ha, hproducer, rfl⟩
    exact ⟨a, ⟨ha, hproducer⟩, rfl, rfl⟩

theorem name_severed (producer : NodeId) (p : InputPort) : (p.severed producer).name = p.name := by
  unfold severed
  split <;> rfl

end InputPort

namespace Directory

/-- The sources that the inputs lose when a producer goes, in the order of the inputs. -/
def lostTo (d : Directory) (producer : NodeId) : List Dropped :=
  d.inputs.filterMap (·.loss? producer)

theorem mem_lostTo {d : Directory} {producer : NodeId} {x : Dropped} :
    x ∈ d.lostTo producer ↔
      ∃ (i : Nat) (p : InputPort), d.inputs[i]? = some p ∧ p.source = some x.address ∧
        x.address.producer = producer ∧ x.name = p.name := by
  simp only [lostTo, List.mem_filterMap, InputPort.loss?_eq_some]
  constructor
  · rintro ⟨p, hp, h⟩
    obtain ⟨i, hi⟩ := List.mem_iff_getElem?.mp hp
    exact ⟨i, p, hi, h⟩
  · rintro ⟨i, p, hp, h⟩
    exact ⟨p, List.mem_iff_getElem?.mpr ⟨i, hp⟩, h⟩

/-- Sources of different inputs are told apart by the places that they name. -/
theorem Indexed.nodup_lostTo {d : Directory} (hd : d.Indexed) (producer : NodeId) :
    (d.lostTo producer).Nodup := by
  refine List.pairwise_filterMap.mpr (List.pairwise_iff_getElem.mpr ?_)
  intro i j hi hj hij x hx y hy hxy
  have hxi : d.source? i = some x.address :=
    source?_eq_some.mpr ⟨_, List.getElem?_eq_getElem hi, (InputPort.loss?_eq_some.mp hx).1⟩
  have hyj : d.source? j = some y.address :=
    source?_eq_some.mpr ⟨_, List.getElem?_eq_getElem hj, (InputPort.loss?_eq_some.mp hy).1⟩
  have hi' := hd i _ hxi
  have hj' := hd j _ hyj
  rw [hxy] at hi'
  omega

/-- What an edge takes with it: the source that it stands for, under the name of its input. -/
def lossAt? (d : Directory) (e : Edge) : Option Dropped :=
  d.inputs[e.address.input.toNat]?.map fun p => ⟨p.name, e.address⟩

theorem lossAt?_congr {d d' : Directory} (h : d'.inputNames = d.inputNames) (e : Edge) :
    d'.lossAt? e = d.lossAt? e := by
  have hname : (d'.inputs[e.address.input.toNat]?).map InputPort.name =
      (d.inputs[e.address.input.toNat]?).map InputPort.name := by
    rw [← List.getElem?_map, ← List.getElem?_map]
    exact congrArg (·[e.address.input.toNat]?) h
  have hmap := congrArg (Option.map fun name => (⟨name, e.address⟩ : Dropped)) hname
  rw [Option.map_map, Option.map_map] at hmap
  exact hmap

end Directory

/-! ## Several inputs of one node -/

variable [Formula.Engine]

namespace Node

/-- The node after the visits for some edges into it. -/
def detachEach (edges : List Edge) (n : Node) : Node :=
  edges.foldl (fun n e => n.detach e.address.input.toNat) n

variable (n : Node) (edges : List Edge)

theorem detachEach_cons (e : Edge) :
    n.detachEach (e :: edges) = (n.detach e.address.input.toNat).detachEach edges := rfl

theorem id_detachEach : (n.detachEach edges).id = n.id := by
  induction edges generalizing n with
  | nil => rfl
  | cons e edges ih => rw [detachEach_cons, ih, id_detach]

/-- A visit changes an input, and the behavior is told of it. -/
theorem detach_eq (e : Edge) :
    n.detach e.address.input.toNat = { n with
      ports := n.ports.modifyInput e.address.input.toNat InputPort.detach
      behavior := n.behavior.disconnectedAll (n.ports.lossAt? e).toList } := by
  unfold detach Directory.lossAt? Directory.modifyInput
  cases hp : n.ports.inputs[e.address.input.toNat]? with
  | some p => rfl
  | none =>
      have hsame := List.modify_eq_self (f := InputPort.detach) (List.getElem?_eq_none_iff.mp hp)
      rw [hsame]
      rfl

/-- All visits together change the inputs that the edges feed, and the behavior is told of each
edge. -/
theorem detachEach_eq :
    n.detachEach edges = { n with
      ports := { n.ports with inputs := (n.detachEach edges).ports.inputs }
      behavior := n.behavior.disconnectedAll (edges.filterMap n.ports.lossAt?) } := by
  induction edges generalizing n with
  | nil => rfl
  | cons e edges ih =>
      have hnames := n.inputNames_detach e.address.input.toNat
      have hloss : edges.filterMap (n.detach e.address.input.toNat).ports.lossAt? =
          edges.filterMap n.ports.lossAt? :=
        List.filterMap_congr fun x _ => Directory.lossAt?_congr hnames x
      have htold : (e :: edges).filterMap n.ports.lossAt? =
          (n.ports.lossAt? e).toList ++ edges.filterMap n.ports.lossAt? := by
        cases h : n.ports.lossAt? e with
        | none => exact List.filterMap_cons_none h
        | some x => exact List.filterMap_cons_some h
      rw [detachEach_cons, ih, hloss, htold, n.detach_eq e, Behavior.disconnectedAll,
        Behavior.disconnectedAll, Behavior.disconnectedAll, List.foldl_append]
      rfl

theorem getElem?_detachEach (i : Nat) :
    (n.detachEach edges).ports.inputs[i]? = n.ports.inputs[i]?.map fun p =>
      if i ∈ edges.map (·.address.input.toNat) then p.detach else p := by
  induction edges generalizing n with
  | nil => simp [detachEach]
  | cons e edges ih =>
      rw [detachEach_cons, ih, n.detach_eq e]
      simp only [Directory.modifyInput, List.getElem?_modify, Option.map_eq_map, Option.map_map,
        List.map_cons, List.mem_cons]
      refine Option.map_congr fun p _ => ?_
      by_cases he : e.address.input.toNat = i
      · subst he
        by_cases hi : e.address.input.toNat ∈ edges.map (·.address.input.toNat)
        · simp [hi, InputPort.detach]
        · simp [hi]
      · simp [he, Ne.symm he]

/-- What the removal of a producer makes of another node: the inputs that read from it lose their
source, and the behavior is told of each loss once, in some order. -/
def Severed (producer : NodeId) (n m : Node) : Prop :=
  ∃ lost : List Dropped, lost.Perm (n.ports.lostTo producer) ∧
    m = { n with
      ports := { n.ports with inputs := n.ports.inputs.map (InputPort.severed producer) }
      behavior := n.behavior.disconnectedAll lost }

end Node

namespace Graph

/-! ## The nodes that are left -/

/-- The edges of a list that end at a node. -/
def into (edges : List Edge) (x : NodeId) : List Edge := edges.filter (·.consumer == x)

/-- Every node has the visits for the edges that end at it. -/
theorem detachAll_eq (edges : List Edge) (nodes : List Node) :
    detachAll edges nodes = nodes.map fun n => n.detachEach (into edges n.id) := by
  induction edges generalizing nodes with
  | nil => simp [detachAll, into, Node.detachEach]
  | cons e edges ih =>
      rw [detachAll_cons, ih, changeNode, List.map_map]
      refine List.map_congr_left fun n _ => ?_
      by_cases hn : n.id = e.consumer
      · simp [into, hn, Node.detachEach_cons, n.id_detach]
      · simp [into, hn, Ne.symm hn]

/-- The node under an identity in a list of which every node has been changed. -/
theorem nodeIn?_map {f : Node → Node} (hf : ∀ n, (f n).id = n.id) (nodes : List Node)
    (x : NodeId) : nodeIn? (nodes.map f) x = (nodeIn? nodes x).map f := by
  unfold nodeIn?
  rw [List.find?_map]
  refine congrArg (Option.map f) (congrArg (fun p => nodes.find? p) (funext fun n => ?_))
  simp [hf]

section Removal
variable {g : Graph} (h : g.Wired) {id : NodeId} {n : Node} (hn : n ∈ g.nodes)
include h hn

/-- An edge from the removed node into another one is a source of that one's input. -/
theorem Wired.mem_into_outgoing {e : Edge} :
    e ∈ into (g.edges.outgoing id) n.id ↔
      e.consumer = n.id ∧ e.address.producer = id ∧
        n.ports.source? e.address.input.toNat = some e.address := by
  have hnode : g.node? n.id = some n := nodeIn?_of_mem h.nodup hn
  rw [into, List.mem_filter, EdgeTable.mem_outgoing, h.edge_iff, beq_iff_eq]
  constructor
  · rintro ⟨⟨hsource, hproducer⟩, hconsumer⟩
    rw [hconsumer, source?, hnode] at hsource
    exact ⟨hconsumer, hproducer, hsource⟩
  · rintro ⟨hconsumer, hproducer, hsource⟩
    refine ⟨⟨?_, hproducer⟩, hconsumer⟩
    rw [hconsumer, source?, hnode]
    exact hsource

/-- What the edges take with them are the losses of the inputs, in another order. -/
theorem Wired.perm_lostTo :
    ((into (g.edges.outgoing id) n.id).filterMap n.ports.lossAt?).Perm (n.ports.lostTo id) := by
  have hindexed := h.ports_indexed (nodeIn?_of_mem h.nodup hn)
  refine (List.perm_ext_iff_of_nodup ?_ (hindexed.nodup_lostTo id)).mpr fun x => ?_
  · -- Edges into one node differ in what they stand for.
    have hedges : (into (g.edges.outgoing id) n.id).Nodup :=
      ((List.Nodup.of_map _ g.edges.slots_nodup).filter _).filter _
    refine List.pairwise_filterMap.mpr (hedges.imp_of_mem ?_)
    intro e e' he he' hne x hx y hy hxy
    obtain ⟨p, -, rfl⟩ := Option.map_eq_some_iff.mp hx
    obtain ⟨q, -, rfl⟩ := Option.map_eq_some_iff.mp hy
    obtain ⟨hc, -⟩ := (h.mem_into_outgoing hn).mp he
    obtain ⟨hc', -⟩ := (h.mem_into_outgoing hn).mp he'
    obtain ⟨c, a⟩ := e
    obtain ⟨c', a'⟩ := e'
    simp only [Dropped.mk.injEq] at hxy
    exact hne (by rw [show c = c' from hc.trans hc'.symm, hxy.2])
  · rw [List.mem_filterMap, Directory.mem_lostTo]
    constructor
    · rintro ⟨e, he, hx⟩
      obtain ⟨p, hp, rfl⟩ := Option.map_eq_some_iff.mp hx
      obtain ⟨-, hproducer, hsource⟩ := (h.mem_into_outgoing hn).mp he
      obtain ⟨q, hq, hqa⟩ := Directory.source?_eq_some.mp hsource
      cases hp.symm.trans hq
      exact ⟨_, p, hp, hqa, hproducer, rfl⟩
    · rintro ⟨i, p, hp, ha, hproducer, hname⟩
      have hsource := Directory.source?_eq_some.mpr ⟨p, hp, ha⟩
      have hi := hindexed i _ hsource
      subst hi
      refine ⟨⟨n.id, x.address⟩, (h.mem_into_outgoing hn).mpr ⟨rfl, hproducer, hsource⟩, ?_⟩
      rw [Directory.lossAt?, hp, Option.map_some, ← hname]

theorem Wired.severed_detachEach :
    n.Severed id (n.detachEach (into (g.edges.outgoing id) n.id)) := by
  have hindexed := h.ports_indexed (nodeIn?_of_mem h.nodup hn)
  refine ⟨_, h.perm_lostTo hn, ?_⟩
  suffices hinputs : (n.detachEach (into (g.edges.outgoing id) n.id)).ports.inputs =
      n.ports.inputs.map (InputPort.severed id) by
    rw [n.detachEach_eq, hinputs]
  apply List.ext_getElem?
  intro i
  rw [n.getElem?_detachEach, List.getElem?_map]
  refine Option.map_congr fun p hp => ?_
  -- An input is visited exactly when it has something to lose.
  have hvisited : i ∈ (into (g.edges.outgoing id) n.id).map (·.address.input.toNat) ↔
      (p.loss? id).isSome = true := by
    rw [List.mem_map, Option.isSome_iff_exists]
    constructor
    · rintro ⟨e, he, rfl⟩
      obtain ⟨-, hproducer, hsource⟩ := (h.mem_into_outgoing hn).mp he
      obtain ⟨q, hq, hqa⟩ := Directory.source?_eq_some.mp hsource
      cases hp.symm.trans hq
      exact ⟨⟨p.name, e.address⟩, InputPort.loss?_eq_some.mpr ⟨hqa, hproducer, rfl⟩⟩
    · rintro ⟨x, hx⟩
      obtain ⟨ha, hproducer, -⟩ := InputPort.loss?_eq_some.mp hx
      have hsource := Directory.source?_eq_some.mpr ⟨p, hp, ha⟩
      have hi := hindexed i _ hsource
      exact ⟨⟨n.id, x.address⟩, (h.mem_into_outgoing hn).mpr ⟨rfl, hproducer, hi ▸ hsource⟩, hi⟩
  rw [InputPort.severed]
  exact if_congr hvisited rfl rfl

end Removal

/-- What becomes of another node, also when there is none to remove. -/
theorem Wired.severed {g : Graph} (h : g.Wired) {id x : NodeId} {n : Node}
    (hn : g.node? x = some n) (hx : x ≠ id) :
    ∃ m, (g.removeNode id).node? x = some m ∧ n.Severed id m := by
  have hmem : n ∈ g.nodes := mem_of_nodeIn? hn
  refine ⟨_, ?_, h.severed_detachEach hmem⟩
  unfold removeNode
  by_cases hid : g.contains id = true
  · rw [if_pos hid]
    show nodeIn? (detachAll _ _) x = _
    rw [detachAll_eq, nodeIn?_map, nodeIn?_filter, if_neg hx, show nodeIn? g.nodes x = _ from hn]
    · rfl
    · exact fun n => n.id_detachEach _
  · rw [if_neg hid, hn]
    have hnone : g.edges.outgoing id = [] := by
      refine List.filter_eq_nil_iff.mpr fun e he hproducer => hid (contains_iff.mpr ?_)
      rw [← beq_iff_eq.mp hproducer]
      exact (h.producer _ _ _ ((h.edge_iff e).mp he)).mem_ids
    rw [hnone]
    rfl

/-- The nodes that are left when one is removed, in their order. -/
theorem Wired.severed_nodes {g : Graph} (h : g.Wired) {id : NodeId} (hid : id ∈ g.ids) :
    List.Forall₂ (Node.Severed id) (g.nodes.filter (·.id != id)) (g.removeNode id).nodes := by
  rw [removeNode, if_pos (contains_iff.mpr hid)]
  show List.Forall₂ _ _ (detachAll _ _)
  rw [detachAll_eq, List.forall₂_map_right_iff, List.forall₂_same]
  exact fun n hn => h.severed_detachEach (List.mem_filter.mp hn).1

/-- Removing a node is exact.  Of the other nodes, in their order, the inputs that read from it
lose their source, of which they are told once each, and nothing else changes; the table loses the
edges at the node and keeps the others in their order.  Without such a node nothing happens. -/
theorem removeNode_exact {g : Graph} (h : g.Reachable) (id : NodeId) :
    (id ∉ g.ids → g.takeOut? id = none ∧ g.removeNode id = g) ∧
    ∀ n, g.node? id = some n →
      g.takeOut? id = some (n, g.removeNode id) ∧
        List.Forall₂ (Node.Severed id) (g.nodes.filter (·.id != id)) (g.removeNode id).nodes ∧
        (g.removeNode id).edges.edges = g.edges.edges.filter (fun e => !e.involves id) ∧
        (g.removeNode id).name = g.name ∧ (g.removeNode id).context = g.context := by
  refine ⟨fun hid => ⟨?_, removeNode_of_not_mem hid⟩, fun n hn => ?_⟩
  · rw [takeOut?, node?, show g.nodes.find? _ = none from nodeIn?_eq_none.mpr hid]
    rfl
  · have hid : id ∈ g.ids := mem_ids_of_node? hn
    refine ⟨by rw [takeOut?, hn]; rfl, h.wired.severed_nodes hid, ?_⟩
    rw [removeNode, if_pos (contains_iff.mpr hid)]
    exact ⟨rfl, rfl, rfl⟩

end Graph

end Patchbay

/-! ## With the standard engine -/

namespace Patchbay.Graph

/-- Two sums that feed each other, one of them on both inputs, beside a display of their
constant. -/
def entangled : Graph :=
  run [.create .value, .create .math, .create .math, .create .display, .connect ⟨0⟩ 0 ⟨2⟩ 0,
    .connect ⟨2⟩ 0 ⟨6⟩ 1, .connect ⟨6⟩ 0 ⟨2⟩ 1, .connect ⟨0⟩ 0 ⟨10⟩ 0, .connect ⟨2⟩ 0 ⟨6⟩ 0,
    .step Poll.none 0] (empty "entangled")

/-- When the first sum is removed the display keeps its edge, and the second sum has nothing left
on either input. -/
theorem removeNode_exact_of_entangled :
    entangled.Reachable ∧ ∃ n, entangled.node? ⟨2⟩ = some n ∧
      List.Forall₂ (Node.Severed ⟨2⟩) (entangled.nodes.filter (·.id != ⟨2⟩))
        (entangled.removeNode ⟨2⟩).nodes ∧
      (entangled.removeNode ⟨2⟩).edges.edges = [⟨⟨10⟩, ⟨⟨0⟩, 0, 0⟩⟩] ∧
      (entangled.removeNode ⟨2⟩).source? ⟨6⟩ 0 = none ∧
      (entangled.removeNode ⟨2⟩).source? ⟨6⟩ 1 = none ∧
      entangled.removeNode ⟨3⟩ = entangled := by
  have hreachable : entangled.Reachable := ⟨_, _, rfl⟩
  have hnode : entangled.node? ⟨2⟩ = some _ := rfl
  obtain ⟨-, hnodes, hedges, -⟩ := (removeNode_exact hreachable ⟨2⟩).2 _ hnode
  obtain ⟨-, hsame⟩ := (removeNode_exact hreachable ⟨3⟩).1 (by decide +kernel)
  exact ⟨hreachable, _, hnode, hnodes, hedges.trans (by decide +kernel), by decide +kernel,
    by decide +kernel, hsame⟩

end Patchbay.Graph
