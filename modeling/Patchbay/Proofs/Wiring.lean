import Patchbay.Formula.Basic
import Patchbay.Proofs.Edges
import Patchbay.Proofs.Runs
/-!
The edge table and the ports describe the same wiring.

An edge is noted twice, and either note is edited by every action that adds,
moves or removes nodes and by the turns of a frame.  `Wired` says that the
notes agree: an edge is in the table exactly when the input it feeds reads
from its address.  For each edit there is one lemma that says what an input
reads from afterwards; with the laws of the table, that the edit keeps
`Wired` is then a matter of comparing two sets of edges.
-/

namespace Patchbay.Graph

variable [Formula.Engine]

/-- The table and the ports agree, inputs read from outputs of other nodes, and no two nodes have
one identity. -/
structure Wired (g : Graph) : Prop where
  nodup : g.ids.Nodup
  edge_iff : ∀ e, e ∈ g.edges.edges ↔
    g.source? e.consumer e.address.input.toNat = some e.address
  indexed : ∀ c i a, g.source? c i = some a → a.input.toNat = i
  apart : ∀ c i a, g.source? c i = some a → a.producer ≠ c
  producer : ∀ c i a, g.source? c i = some a → g.HasOutput a.producer a.output.toNat

/-! ## Outputs that stay -/

/-- An output is still there when its node is and has as many outputs as before. -/
theorem HasOutput.of_nodes {g g' : Graph} {id : NodeId} {o : Nat} (h : g.HasOutput id o)
    (hn : ∀ n, g.node? id = some n →
      ∃ m, g'.node? id = some m ∧ m.ports.outputNames = n.ports.outputNames) :
    g'.HasOutput id o := by
  obtain ⟨n, hid, ho⟩ := h
  obtain ⟨m, hm, hnames⟩ := hn n hid
  refine ⟨m, hm, ?_⟩
  have hlength := congrArg List.length hnames
  simp only [Directory.outputNames, List.length_map] at hlength
  rw [hlength]
  exact ho

theorem HasOutput.mem_ids {g : Graph} {id : NodeId} {o : Nat} (h : g.HasOutput id o) :
    id ∈ g.ids := by
  obtain ⟨n, hn, _⟩ := h
  exact mem_ids_of_node? hn

theorem mem_ids_of_source? {g : Graph} {c : NodeId} {i : Nat} {a : Address}
    (h : g.source? c i = some a) : c ∈ g.ids := by
  obtain ⟨n, hn, _⟩ := source?_eq_some.mp h
  exact mem_ids_of_node? hn

/-- A node of a wired graph has its sources at the inputs that they name. -/
theorem Wired.ports_indexed {g : Graph} (h : g.Wired) {c : NodeId} {n : Node}
    (hn : g.node? c = some n) : n.ports.Indexed := by
  intro i a ha
  exact h.indexed c i a (source?_eq_some.mpr ⟨n, hn, ha⟩)

/-! ## Removing a node -/

theorem ids_removeNode (g : Graph) (id : NodeId) :
    (g.removeNode id).ids = g.ids.filter (· != id) := by
  unfold removeNode
  by_cases h : g.contains id = true
  · rw [if_pos h]
    show (detachAll _ _).map Node.id = _
    rw [map_id_detachAll, ids, List.filter_map]
    rfl
  · rw [if_neg h, eq_comm, List.filter_eq_self]
    intro x hx
    have hne : x ≠ id := fun hxid => h (contains_iff.mpr (hxid ▸ hx))
    simpa using hne

/-- The table after a node is removed; without such a node it has no edges at it. -/
theorem Wired.mem_edges_removeNode {g : Graph} (h : g.Wired) {id : NodeId} {e : Edge} :
    e ∈ (g.removeNode id).edges.edges ↔
      e ∈ g.edges.edges ∧ e.producer ≠ id ∧ e.consumer ≠ id := by
  unfold removeNode
  by_cases hid : g.contains id = true
  · rw [if_pos hid]
    exact EdgeTable.mem_removeNode
  · rw [if_neg hid]
    refine ⟨fun he => ⟨he, ?_, ?_⟩, fun he => he.1⟩
    · rintro rfl
      exact hid (contains_iff.mpr (h.producer _ _ _ ((h.edge_iff e).mp he)).mem_ids)
    · rintro rfl
      exact hid (contains_iff.mpr (mem_ids_of_source? ((h.edge_iff e).mp he)))

/-- After a node is removed, inputs of other nodes read from other nodes. -/
theorem Wired.source?_removeNode {g : Graph} (h : g.Wired) {id c : NodeId} {i : Nat}
    {a : Address} :
    (g.removeNode id).source? c i = some a ↔
      g.source? c i = some a ∧ a.producer ≠ id ∧ c ≠ id := by
  unfold removeNode
  by_cases hid : g.contains id = true
  · rw [if_pos hid]
    refine source?_detachAll.trans ?_
    rw [nodeIn?_filter]
    by_cases hc : c = id
    · simp [hc]
    rw [if_neg hc]
    -- The edges that start at the node are those whose inputs read from it.
    have hout : g.source? c i = some a →
        ((∀ e ∈ g.edges.outgoing id, ¬(e.consumer = c ∧ e.address.input.toNat = i)) ↔
          a.producer ≠ id) := by
      intro ha
      have hi : a.input.toNat = i := h.indexed c i a ha
      constructor
      · rintro hnone rfl
        have hmem : (⟨c, a⟩ : Edge) ∈ g.edges.edges := (h.edge_iff ⟨c, a⟩).mpr (by rw [hi]; exact ha)
        exact hnone ⟨c, a⟩ (EdgeTable.mem_outgoing.mpr ⟨hmem, rfl⟩) ⟨rfl, hi⟩
      · rintro hne e he ⟨rfl, rfl⟩
        obtain ⟨hmem, rfl⟩ := EdgeTable.mem_outgoing.mp he
        have hsource := (h.edge_iff e).mp hmem
        rw [ha, Option.some.injEq] at hsource
        exact hne (congrArg Address.producer hsource)
    constructor
    · rintro ⟨ha, hnone⟩
      exact ⟨ha, (hout ha).mp hnone, hc⟩
    · rintro ⟨ha, hne, _⟩
      exact ⟨ha, (hout ha).mpr hne⟩
  · rw [if_neg hid]
    refine ⟨fun ha => ⟨ha, ?_, ?_⟩, fun ha => ha.1⟩
    · rintro rfl
      exact hid (contains_iff.mpr (h.producer c i a ha).mem_ids)
    · rintro rfl
      exact hid (contains_iff.mpr (mem_ids_of_source? ha))

/-- A node that stays when another one is removed. -/
theorem node?_removeNode {g : Graph} {id x : NodeId} {n : Node} (hx : x ≠ id)
    (hn : g.node? x = some n) :
    ∃ m, (g.removeNode id).node? x = some m ∧ m.ports.outputs = n.ports.outputs := by
  unfold removeNode
  by_cases hid : g.contains id = true
  · rw [if_pos hid]
    refine outputs_detachAll ?_
    rw [nodeIn?_filter, if_neg hx]
    exact hn
  · rw [if_neg hid]
    exact ⟨n, hn, rfl⟩

theorem HasOutput.removeNode {g : Graph} {id p : NodeId} {o : Nat} (h : g.HasOutput p o)
    (hp : p ≠ id) : (g.removeNode id).HasOutput p o := by
  refine h.of_nodes fun n hn => ?_
  obtain ⟨m, hm, hout⟩ := node?_removeNode hp hn
  exact ⟨m, hm, congrArg (List.map OutputPort.name) hout⟩

theorem Wired.remove {g : Graph} (h : g.Wired) (id : NodeId) : (g.removeNode id).Wired where
  nodup := by
    rw [ids_removeNode]
    exact h.nodup.filter _
  edge_iff e := by
    rw [h.mem_edges_removeNode, h.source?_removeNode, h.edge_iff]
    rfl
  indexed c i a ha := h.indexed c i a (h.source?_removeNode.mp ha).1
  apart c i a ha := h.apart c i a (h.source?_removeNode.mp ha).1
  producer c i a ha := by
    obtain ⟨hsource, hne, _⟩ := h.source?_removeNode.mp ha
    exact (h.producer c i a hsource).removeNode hne

/-! ## Adding a node -/

theorem node?_inserted {g : Graph} {n : Node} (hid : n.id ∉ g.ids) (x : NodeId) :
    (g.inserted n).node? x = if x = n.id then some n else g.node? x :=
  nodeIn?_insertByPriority hid x

/-- A new node with nothing attached changes no source. -/
theorem source?_inserted {g : Graph} {n : Node} (hid : n.id ∉ g.ids) (hn : n.ports.Loose)
    {c : NodeId} {i : Nat} {a : Address} :
    (g.inserted n).source? c i = some a ↔ g.source? c i = some a := by
  rw [source?, node?_inserted hid]
  by_cases hc : c = n.id
  · subst hc
    constructor
    · intro ha
      have hnone : n.ports.source? i = some a := by simpa using ha
      rw [hn i] at hnone
      exact absurd hnone (by simp)
    · intro ha
      exact absurd (mem_ids_of_source? ha) hid
  · rw [if_neg hc]
    rfl

theorem HasOutput.inserted {g : Graph} {n : Node} {p : NodeId} {o : Nat} (h : g.HasOutput p o)
    (hid : n.id ∉ g.ids) : (g.inserted n).HasOutput p o := by
  refine h.of_nodes fun m hm => ⟨m, ?_, rfl⟩
  rw [node?_inserted hid, if_neg, hm]
  intro heq
  exact hid (heq ▸ h.mem_ids)

theorem Wired.insert {g : Graph} {n : Node} (h : g.Wired) (hid : n.id ∉ g.ids)
    (hn : n.ports.Loose) : (g.inserted n).Wired where
  nodup := nodup_insertByPriority h.nodup hid
  edge_iff e := (h.edge_iff e).trans (source?_inserted hid hn).symm
  indexed c i a ha := h.indexed c i a ((source?_inserted hid hn).mp ha)
  apart c i a ha := h.apart c i a ((source?_inserted hid hn).mp ha)
  producer c i a ha := by
    exact (h.producer c i a ((source?_inserted hid hn).mp ha)).inserted hid

/-! ## Connecting and disconnecting -/

/-- The consumer of a new edge. -/
def attachedNode (e : Edge) (source : Node) (o : OutputPort) (i : InputPort) (n : Node) : Node :=
  let n := { n with ports := n.ports.modifyInput e.address.input.toNat (·.attach e.address) }
  let n := if i.isConnected then n.disconnected i.name else n
  n.connected i.name ⟨source.name, o.name⟩

theorem attached_eq (g : Graph) (e : Edge) (source : Node) (o : OutputPort) (i : InputPort) :
    g.attached e source o i =
      { g.modifyNode e.consumer (attachedNode e source o i) with edges := g.edges.insert e } := rfl

section Consumer
variable (e : Edge) (source : Node) (o : OutputPort) (i : InputPort) (n : Node)

/-- A new edge changes the source of an input and what the behavior is told. -/
theorem attachedNode_eq :
    attachedNode e source o i n =
      { n with
        ports := n.ports.modifyInput e.address.input.toNat (·.attach e.address)
        behavior := (if i.isConnected then n.behavior.disconnected i.name else n.behavior).connected
          i.name ⟨source.name, o.name⟩ } := by
  unfold attachedNode
  by_cases h : i.isConnected = true
  · simp only [if_pos h]; rfl
  · simp only [if_neg h]; rfl

theorem ports_attachedNode :
    (attachedNode e source o i n).ports =
      n.ports.modifyInput e.address.input.toNat (·.attach e.address) := by
  rw [attachedNode_eq]

theorem inputNames_attachedNode :
    (attachedNode e source o i n).ports.inputNames = n.ports.inputNames := by
  rw [ports_attachedNode]
  exact Directory.inputNames_modifyInput fun _ => rfl

theorem id_attachedNode : (attachedNode e source o i n).id = n.id := by
  rw [attachedNode_eq]

theorem name_attachedNode : (attachedNode e source o i n).name = n.name := by
  rw [attachedNode_eq]

theorem priority_attachedNode : (attachedNode e source o i n).priority = n.priority := by
  rw [attachedNode_eq]

theorem type_attachedNode : (attachedNode e source o i n).type = n.type := by
  rw [attachedNode_eq]
  refine (Behavior.type_connected _ _ _).trans ?_
  split
  · exact Behavior.type_disconnected _ _
  · rfl

end Consumer

section Attach
variable {g : Graph} {e : Edge} {source target : Node} {o : OutputPort} {i : InputPort}

theorem node?_attached (x : NodeId) :
    (g.attached e source o i).node? x =
      if x = e.consumer then (g.node? x).map (attachedNode e source o i) else g.node? x :=
  node?_modifyNode (fun n hn => (id_attachedNode e source o i n).trans hn) g x

theorem ids_attached : (g.attached e source o i).ids = g.ids :=
  ids_modifyNode (fun n hn => (id_attachedNode e source o i n).trans hn) g

/-- Only the input of the new edge reads from another place. -/
theorem source?_attached (h : Attachable g e source target o i) (c : NodeId) (j : Nat) :
    (g.attached e source o i).source? c j =
      if c = e.consumer ∧ e.address.input.toNat = j then some e.address else g.source? c j := by
  rw [source?, node?_attached]
  by_cases hc : c = e.consumer
  · subst hc
    rw [if_pos rfl, h.hasTarget]
    show (attachedNode e source o i target).ports.source? j = _
    rw [ports_attachedNode, Directory.source?_attach h.hasInput]
    simp [Graph.source?, h.hasTarget]
  · rw [if_neg hc, if_neg (fun hand => hc hand.1)]
    rfl

theorem outputs_attachedNode (n : Node) :
    (attachedNode e source o i n).ports.outputs = n.ports.outputs := by
  rw [ports_attachedNode]
  rfl

theorem HasOutput.attached {p : NodeId} {k : Nat} (h : g.HasOutput p k) :
    (g.attached e source o i).HasOutput p k := by
  refine h.of_nodes fun n hn => ?_
  rw [node?_attached, hn]
  split
  · exact ⟨_, rfl, congrArg (List.map OutputPort.name) (outputs_attachedNode n)⟩
  · exact ⟨n, rfl, rfl⟩

/-- The table after an edge is added: the edges of other inputs are still there. -/
theorem Wired.mem_edges_attached (h : g.Wired) (ha : Attachable g e source target o i) (x : Edge) :
    x ∈ (g.attached e source o i).edges.edges ↔
      (g.attached e source o i).source? x.consumer x.address.input.toNat = some x.address := by
  show x ∈ (g.edges.insert e).edges ↔ _
  rw [EdgeTable.mem_insert, source?_attached ha, h.edge_iff]
  by_cases hslot : x.slot = e.slot
  · obtain ⟨hc, hi⟩ := Prod.mk.inj hslot
    have hsame : x = e ↔ e.address = x.address := by
      constructor
      · rintro rfl
        rfl
      · intro haddress
        obtain ⟨c, a⟩ := x
        obtain ⟨c', a'⟩ := e
        simp only [Edge.mk.injEq]
        exact ⟨hc, haddress.symm⟩
    have hi' : e.address.input = x.address.input := hi.symm
    simp [hslot, hc, hi', hsame]
  · have hne : ¬(x.consumer = e.consumer ∧ e.address.input.toNat = x.address.input.toNat) := by
      rintro ⟨hc, hi⟩
      exact hslot (Prod.ext hc (UInt8.toNat_inj.mp hi.symm))
    have hx : x ≠ e := fun hxe => hslot (hxe ▸ rfl)
    simp [hslot, hne, hx]

theorem Wired.attach (h : g.Wired) (ha : Attachable g e source target o i) :
    (g.attached e source o i).Wired where
  nodup := by
    rw [ids_attached]
    exact h.nodup
  edge_iff := h.mem_edges_attached ha
  indexed c j a hs := by
    rw [source?_attached ha] at hs
    split at hs
    · next hcj => cases hs; exact hcj.2
    · exact h.indexed c j a hs
  apart c j a hs := by
    rw [source?_attached ha] at hs
    split at hs
    · next hcj => cases hs; rw [hcj.1]; exact ha.apart
    · exact h.apart c j a hs
  producer c j a hs := by
    have hout : g.HasOutput a.producer a.output.toNat := by
      rw [source?_attached ha] at hs
      split at hs
      · cases hs
        obtain ⟨hlt, _⟩ := List.getElem?_eq_some_iff.mp ha.hasOutput
        exact ⟨source, ha.hasSource, hlt⟩
      · exact h.producer c j a hs
    exact hout.attached

end Attach

/-- The graph with a source taken from an input, and its edge from the table. -/
def detached (g : Graph) (c : NodeId) (slot : UInt8) : Graph :=
  { g.modifyNode c (·.detach slot.toNat) with edges := g.edges.remove (c, slot) }

theorem node?_detached (g : Graph) (c : NodeId) (slot : UInt8) (x : NodeId) :
    (g.detached c slot).node? x =
      if x = c then (g.node? x).map (·.detach slot.toNat) else g.node? x :=
  node?_modifyNode (fun n hn => (n.id_detach _).trans hn) g x

theorem ids_detached (g : Graph) (c : NodeId) (slot : UInt8) : (g.detached c slot).ids = g.ids :=
  ids_modifyNode (fun n hn => (n.id_detach _).trans hn) g

theorem source?_detached (g : Graph) (c : NodeId) (slot : UInt8) (x : NodeId) (j : Nat) :
    (g.detached c slot).source? x j =
      if x = c ∧ slot.toNat = j then none else g.source? x j := by
  rw [source?, node?_detached]
  by_cases hx : x = c
  · subst hx
    rw [if_pos rfl, source?]
    cases g.node? x with
    | none => simp
    | some n =>
        by_cases hj : slot.toNat = j
        · simp [Node.source?_detach, hj]
        · simp [Node.source?_detach, hj]
  · rw [if_neg hx, if_neg (fun hand => hx hand.1)]
    rfl

theorem HasOutput.detached {g : Graph} {p : NodeId} {o : Nat} (h : g.HasOutput p o) (c : NodeId)
    (slot : UInt8) : (g.detached c slot).HasOutput p o := by
  refine h.of_nodes fun n hn => ?_
  rw [node?_detached, hn]
  split
  · exact ⟨_, rfl, congrArg (List.map OutputPort.name) (n.outputs_detach _)⟩
  · exact ⟨n, rfl, rfl⟩

theorem Wired.detach {g : Graph} (h : g.Wired) (c : NodeId) (slot : UInt8) :
    (g.detached c slot).Wired where
  nodup := by
    rw [ids_detached]
    exact h.nodup
  edge_iff e := by
    show e ∈ (g.edges.remove (c, slot)).edges ↔ _
    rw [EdgeTable.mem_remove, source?_detached, h.edge_iff]
    by_cases hslot : e.slot = (c, slot)
    · obtain ⟨hc, hi⟩ := Prod.mk.inj hslot
      simp [hslot, hc, hi]
    · have hne : ¬(e.consumer = c ∧ slot.toNat = e.address.input.toNat) := by
        rintro ⟨hc, hi⟩
        exact hslot (Prod.ext hc (UInt8.toNat_inj.mp hi.symm))
      simp [hslot, hne]
  indexed x j a hs := by
    rw [source?_detached] at hs
    split at hs
    · exact nomatch hs
    · exact h.indexed x j a hs
  apart x j a hs := by
    rw [source?_detached] at hs
    split at hs
    · exact nomatch hs
    · exact h.apart x j a hs
  producer x j a hs := by
    have hout : g.HasOutput a.producer a.output.toNat := by
      rw [source?_detached] at hs
      split at hs
      · exact nomatch hs
      · exact h.producer x j a hs
    exact hout.detached c slot

/-! ## Settings -/

theorem node?_set (g : Graph) (id : NodeId) (s : Setting) (x : NodeId) :
    (g.modifyNode id s.onNode).node? x =
      if x = id then (g.node? x).map s.onNode else g.node? x :=
  node?_modifyNode (fun n hn => (s.id_onNode n).trans hn) g x

theorem ids_set (g : Graph) (id : NodeId) (s : Setting) :
    (g.modifyNode id s.onNode).ids = g.ids :=
  ids_modifyNode (fun n hn => (s.id_onNode n).trans hn) g

theorem source?_set (g : Graph) (id : NodeId) (s : Setting) (c : NodeId) (i : Nat) :
    (g.modifyNode id s.onNode).source? c i = g.source? c i := by
  rw [source?, node?_set, source?]
  by_cases hc : c = id
  · rw [if_pos hc]
    cases g.node? c with
    | none => rfl
    | some n => simp [s.ports_onNode]
  · rw [if_neg hc]

theorem HasOutput.set {g : Graph} {p : NodeId} {o : Nat} (h : g.HasOutput p o) (id : NodeId)
    (s : Setting) : (g.modifyNode id s.onNode).HasOutput p o := by
  refine h.of_nodes fun n hn => ?_
  rw [node?_set, hn]
  split
  · exact ⟨_, rfl, congrArg Directory.outputNames (s.ports_onNode n)⟩
  · exact ⟨n, rfl, rfl⟩

theorem Wired.set {g : Graph} (h : g.Wired) (id : NodeId) (s : Setting) :
    (g.modifyNode id s.onNode).Wired where
  nodup := by
    rw [ids_set]
    exact h.nodup
  edge_iff e := by
    rw [source?_set]
    exact h.edge_iff e
  indexed c i a ha := h.indexed c i a (source?_set g id s c i ▸ ha)
  apart c i a ha := h.apart c i a (source?_set g id s c i ▸ ha)
  producer c i a ha := by
    exact (h.producer c i a (source?_set g id s c i ▸ ha)).set id s

/-! ## Turns -/

omit [Formula.Engine] in
theorem mem_dropEdges {consumer : NodeId} {dropped : List Dropped} {t : EdgeTable} {e : Edge} :
    e ∈ (dropEdges consumer dropped t).edges ↔
      e ∈ t.edges ∧ ∀ x ∈ dropped, e.slot ≠ (consumer, x.address.input) := by
  unfold dropEdges
  induction dropped generalizing t with
  | nil => simp
  | cons x dropped ih =>
      rw [List.foldl_cons, ih, EdgeTable.mem_remove]
      simp [and_assoc]

/-- The sources that a node loses in its turn. -/
def lostIn (now : Moment) (g : Graph) (n : Node) : List Dropped :=
  (n.takeTurn now (supplyOf g.nodes n)).2

/-- In a turn a node keeps the sources that it does not report lost, and every other node keeps
all of its own. -/
theorem source?_runNode {g : Graph} {id : NodeId} {n : Node} (hports : n.ports.Indexed)
    (hn : g.node? id = some n) (now : Moment) {c : NodeId} {i : Nat} {a : Address} :
    (runNode now g id).source? c i = some a ↔
      g.source? c i = some a ∧ (c = id → ∀ x ∈ lostIn now g n, x.address ≠ a) := by
  rw [source?, node?_runNode hn]
  by_cases hc : c = id
  · subst hc
    rw [if_pos rfl]
    show Directory.source? _ i = some a ↔ _
    rw [Node.takeTurn_source_iff now _ hports, source?, hn]
    simp [lostIn]
  · rw [if_neg hc]
    simp [source?, hc]

theorem Wired.source?_runNode {g : Graph} (h : g.Wired) {id : NodeId} {n : Node}
    (hn : g.node? id = some n) (now : Moment) {c : NodeId} {i : Nat} {a : Address} :
    (runNode now g id).source? c i = some a ↔
      g.source? c i = some a ∧ (c = id → ∀ x ∈ lostIn now g n, x.address ≠ a) :=
  Graph.source?_runNode (h.ports_indexed hn) hn now

/-- An output is still there after a turn. -/
theorem HasOutput.runNode {g : Graph} {id p : NodeId} {n : Node} (hports : n.ports.Indexed)
    (hn : g.node? id = some n) (now : Moment) {o : Nat} (h : g.HasOutput p o) :
    (runNode now g id).HasOutput p o := by
  refine h.of_nodes fun m hm => ?_
  rw [node?_runNode hn]
  by_cases hid : p = id
  · rw [if_pos hid]
    rw [hid, hn] at hm
    cases hm
    exact ⟨_, rfl, Node.takeTurn_outputNames now _ hports⟩
  · rw [if_neg hid]
    exact ⟨m, hm, rfl⟩

/-- A source that is lost was there. -/
theorem Wired.source?_of_lost {g : Graph} (h : g.Wired) {id : NodeId} {n : Node}
    (hn : g.node? id = some n) (now : Moment) {x : Dropped} (hx : x ∈ lostIn now g n) :
    g.source? id x.address.input.toNat = some x.address := by
  have hports := h.ports_indexed hn
  obtain ⟨i, hi⟩ := (Node.heldTurn_keeps now (supplyOf g.nodes n) hports).dropped x hx
  have hsource : n.ports.source? i = some x.address := hi
  have hindex : x.address.input.toNat = i := hports i _ hsource
  subst hindex
  exact source?_eq_some.mpr ⟨n, hn, hsource⟩

theorem Wired.turn {g : Graph} (h : g.Wired) (now : Moment) (id : NodeId) :
    (runNode now g id).Wired := by
  cases hn : g.node? id with
  | none =>
      rw [runNode_of_none hn]
      exact h
  | some n =>
      refine ⟨?_, fun e => ?_, fun c i a ha => ?_, fun c i a ha => ?_, fun c i a ha => ?_⟩
      · rw [ids_runNode]
        exact h.nodup
      · rw [h.source?_runNode hn, runNode_eq hn]
        show e ∈ (dropEdges id (lostIn now g n) g.edges).edges ↔ _
        rw [mem_dropEdges, h.edge_iff]
        refine and_congr_right fun hsource => ?_
        constructor
        · rintro hkeep rfl x hx hxa
          exact hkeep x hx (by rw [hxa]; rfl)
        · rintro hkeep x hx hslot
          obtain ⟨hc, hi⟩ := Prod.mk.inj hslot
          have hlost := h.source?_of_lost hn now hx
          rw [← hc, ← hi, hsource, Option.some.injEq] at hlost
          exact hkeep hc x hx hlost.symm
      · exact h.indexed c i a ((h.source?_runNode hn now).mp ha).1
      · exact h.apart c i a ((h.source?_runNode hn now).mp ha).1
      · exact (h.producer c i a ((h.source?_runNode hn now).mp ha).1).runNode (h.ports_indexed hn)
          hn now

/-! ## Every graph -/

theorem wired_invariant : Invariant Always fun _ g => g.Wired where
  blank name c := by
    refine ⟨List.nodup_nil, fun e => ?_, ?_, ?_, ?_⟩
    · simp [EdgeTable.empty, source?, node?]
    all_goals
      intro c i a ha
      exact absurd ha (by simp [source?, node?])
  context _ _ h := ⟨h.nodup, h.edge_iff, h.indexed, h.apart, h.producer⟩
  remove id _ h := h.remove id
  insert _ h hid hn := h.insert hid hn.loose
  attach _ h ha := h.attach ha
  disconnect _ h hd := by
    obtain ⟨slot, rfl, _, _, rfl⟩ := disconnect_eq_some hd
    exact h.detach _ slot
  set id s _ h := h.set id s
  turn now _ h := h.turn now _

theorem Reachable.wired {g : Graph} (h : g.Reachable) : g.Wired :=
  wired_invariant.of_reachable h

/-- The table and the ports tell the same: every entry of the table is the source of an input
that is there, from an output that is there of another node, and every source is in the table. -/
structure Consistent (g : Graph) : Prop where
  entry : ∀ (c : NodeId) (i : UInt8) (a : Address), g.edges.get? (c, i) = some a →
    c ≠ a.producer ∧ a.input = i ∧
      (∃ producer, g.node? a.producer = some producer ∧
        a.output.toNat < producer.ports.outputs.length) ∧
      ∃ consumer p, g.node? c = some consumer ∧ consumer.ports.inputs[i.toNat]? = some p ∧
        p.source = some a
  port : ∀ n ∈ g.nodes, ∀ (j : Nat) (p : InputPort) (a : Address),
    n.ports.inputs[j]? = some p → p.source = some a →
      a.input.toNat = j ∧ g.edges.get? (n.id, a.input) = some a

theorem Wired.consistent {g : Graph} (h : g.Wired) : g.Consistent where
  entry c i a hentry := by
    obtain ⟨hmem, rfl⟩ := EdgeTable.get?_eq_some.mp hentry
    have hsource : g.source? c a.input.toNat = some a := (h.edge_iff ⟨c, a⟩).mp hmem
    obtain ⟨consumer, hc, hports⟩ := source?_eq_some.mp hsource
    obtain ⟨p, hp, hpa⟩ := Directory.source?_eq_some.mp hports
    exact ⟨(h.apart _ _ _ hsource).symm, rfl, h.producer _ _ _ hsource, consumer, p, hc, hp, hpa⟩
  port n hn j p a hp ha := by
    have hnode : g.node? n.id = some n := nodeIn?_of_mem h.nodup hn
    have hsource : g.source? n.id j = some a :=
      source?_eq_some.mpr ⟨n, hnode, Directory.source?_eq_some.mpr ⟨p, hp, ha⟩⟩
    have hj : a.input.toNat = j := h.indexed _ _ _ hsource
    subst hj
    exact ⟨rfl, EdgeTable.get?_eq_some.mpr ⟨(h.edge_iff ⟨n.id, a⟩).mpr hsource, rfl⟩⟩

/-- In every graph that can be reached the table and the ports tell the same. -/
theorem consistent_of_reachable {g : Graph} (h : g.Reachable) : g.Consistent :=
  h.wired.consistent

end Patchbay.Graph

/-! ## With the standard engine -/

namespace Patchbay.Graph

/-- A constant that feeds a sum, and the sum a display, after a frame. -/
theorem consistent_of_sum :
    Reachable (run [.create .value, .create .math, .connect ⟨0⟩ 0 ⟨2⟩ 1, .create .display,
        .connectNamed ⟨2⟩ "result" ⟨6⟩ "in", .step Poll.none 0] (empty "sum")) ∧
      Consistent (run [.create .value, .create .math, .connect ⟨0⟩ 0 ⟨2⟩ 1, .create .display,
        .connectNamed ⟨2⟩ "result" ⟨6⟩ "in", .step Poll.none 0] (empty "sum")) :=
  ⟨⟨_, _, rfl⟩, consistent_of_reachable ⟨_, _, rfl⟩⟩

end Patchbay.Graph
