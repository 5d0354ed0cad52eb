import Patchbay.Proofs.Blocks
import Patchbay.Proofs.Shape
/-!
A scene that was saved can be loaded.

The scene of a graph is read to the nodes as their blocks leave them, in
their order, and to the edges of one producer after the other.  Added in
that order the nodes come to stand as they stood, and every edge fits, so
the loaded graph has the contents of the saved one (`Node.content`) and its
edges.
-/

namespace Patchbay

open Bytes BlockReader

/-! ## What a scene keeps of a node -/

variable [Formula.Engine]

/-- What a scene keeps of a node: everything but the wiring, the flags of the outputs, the kinds
the inputs take, and what its behavior forgets. -/
structure Content where
  id : NodeId
  type : NodeType
  name : String
  priority : Priority
  geometry : Geometry
  inputNames : List String
  inputPadding : Single
  outputPadding : Single
  outputs : List (String × Value)
  behavior : Behavior

namespace Node

def content (n : Node) : Content where
  id := n.id
  type := n.type
  name := n.name
  priority := n.priority
  geometry := n.geometry
  inputNames := n.ports.inputNames
  inputPadding := n.ports.inputPadding
  outputPadding := n.ports.outputPadding
  outputs := n.ports.outputs.map fun o => (o.name, o.cell.value)
  behavior := n.behavior.reloaded

theorem inputNames_reloaded (n : Node) : n.reloaded.ports.inputNames = n.ports.inputNames := by
  simp [reloaded, Directory.inputNames, InputPort.fresh, Function.comp_def]

theorem content_reloaded (n : Node) : n.reloaded.content = n.content := by
  have houtputs : n.reloaded.ports.outputs.map (fun o => (o.name, o.cell.value)) =
      n.ports.outputs.map fun o => (o.name, o.cell.value) := by
    simp [reloaded, Cell.markDirty, Function.comp_def]
  have htype : n.reloaded.type = n.type := n.behavior.type_reloaded
  have hbehavior : n.reloaded.behavior.reloaded = n.behavior.reloaded :=
    n.behavior.reloaded_reloaded
  unfold content
  rw [n.inputNames_reloaded, houtputs, htype, hbehavior]
  rfl

end Node

theorem Graph.content_attachedNode (e : Edge) (source : Node) (o : OutputPort) (i : InputPort)
    (n : Node) : (attachedNode e source o i n).content = n.content := by
  have hnames := inputNames_attachedNode e source o i n
  have hbehavior : (attachedNode e source o i n).behavior.reloaded = n.behavior.reloaded := by
    rw [attachedNode_eq]
    refine (Behavior.reloaded_connected _ _ _).trans ?_
    split
    · exact Behavior.reloaded_disconnected _ _
    · rfl
  unfold Node.content
  rw [hnames, hbehavior, type_attachedNode]
  simp only [attachedNode_eq, Directory.modifyInput]

/-- The block of a node is made from what a scene keeps of it. -/
theorem Block.write_congr {n m : Node} (h : n.content = m.content) (es : List Edge) :
    write n es = write m es := by
  have houtputs : ∀ os : List OutputPort, os.flatMap outputBytes =
      (os.map fun o => (o.name, o.cell.value)).flatMap fun (name, v) =>
        outputBytes ⟨name, ⟨v, false⟩⟩ := by
    intro os
    rw [List.flatMap_map]
    rfl
  have hput : n.behavior.put = m.behavior.put := by
    rw [← n.behavior.put_reloaded, ← m.behavior.put_reloaded]
    exact congrArg (fun c => c.behavior.put) h
  have hid : n.id = m.id := congrArg Content.id h
  have hname : n.name = m.name := congrArg Content.name h
  have hpriority : n.priority = m.priority := congrArg Content.priority h
  have hgeometry : n.geometry = m.geometry := congrArg Content.geometry h
  have hnames : n.ports.inputNames = m.ports.inputNames := congrArg Content.inputNames h
  have hinput : n.ports.inputPadding = m.ports.inputPadding := congrArg Content.inputPadding h
  have houtput : n.ports.outputPadding = m.ports.outputPadding := congrArg Content.outputPadding h
  have hvalues : n.ports.outputs.map (fun o => (o.name, o.cell.value)) =
      m.ports.outputs.map fun o => (o.name, o.cell.value) := congrArg Content.outputs h
  unfold write
  rw [hput, hid, hname, hpriority, hgeometry, hnames, hinput, houtput, houtputs, hvalues,
    ← houtputs]

namespace Graph

/-! ## Reading what was saved -/

theorem inputs_create (t : NodeType) (c : Context) :
    (Node.create t c).1.ports.inputs = t.inputNames.map InputPort.fresh := by
  rw [Node.ports_create, Directory.inputs_posts]
  rfl

/-- The counts of a scene fit their bytes: the inputs of a list four of them, everything else
eight.  Nodes of other types never have more inputs than that (`Node.Sound.countable`). -/
structure Storable (g : Graph) : Prop where
  size : g.save.length < sizeLimit
  inputs : ∀ n ∈ g.nodes, n.type = .list → n.ports.inputs.length < limit 4

/-- The block of a node with the edges that start at it. -/
def blockOf (g : Graph) (n : Node) : List UInt8 := Block.write n (g.edges.outgoing n.id)

theorem save_eq (g : Graph) :
    g.save = Wire.u64.put (UInt64.ofNat g.nodes.length) ++ (Wire.u32.put g.context.nextId ++
      (g.nodes.map (·.type.tag) ++ g.nodes.flatMap fun n => Wire.block.put (g.blockOf n))) := by
  simp only [save, blockOf, List.append_assoc]

section Reading
variable {g : Graph}

theorem length_nodes_of_save (hsize : g.save.length < sizeLimit) : g.nodes.length < sizeLimit := by
  rw [save_eq] at hsize
  simp only [List.length_append, List.length_map] at hsize
  omega

theorem length_block_of_save (hsize : g.save.length < sizeLimit) {n : Node} (hn : n ∈ g.nodes) :
    (g.blockOf n).length < sizeLimit := by
  rw [save_eq] at hsize
  simp only [List.length_append, List.length_map] at hsize
  have hblock := Wire.length_le_of_mem (fun n => Wire.block.put (g.blockOf n)) hn
  rw [Wire.length_put_block] at hblock
  omega

theorem Storable.countable (h : g.Storable) {n : Node} (hn : n ∈ g.nodes) (hsound : n.Sound) :
    n.ports.inputs.length < limit 4 := by
  by_cases hlist : n.type = .list
  · exact h.inputs n hn hlist
  · exact hsound.countable hlist

/-- A new node is filled from the block of a node of its type, whatever follows the block. -/
theorem fills_blockOf (h : g.Storable) {n : Node} (hn : n ∈ g.nodes) (hsound : n.Sound)
    (c : Context) :
    Block.Filler.Fills Block.read (Node.create n.type c).1 (g.blockOf n) (g.edges.outgoing n.id)
      n.reloaded := by
  have hproducer : ∀ e ∈ g.edges.outgoing n.id, e.producer = n.id := fun e he =>
    (EdgeTable.mem_outgoing.mp he).2
  have hfresh := Node.fresh_create n.type c (Node.create n.type c).1.id
  have houtputs : (Node.create n.type c).1.ports.outputNames = n.type.outputNames :=
    hfresh.sound.outputs.trans (congrArg NodeType.outputNames hfresh.type)
  exact Block.fills_read_write hsound hproducer (length_block_of_save h.size hn) (h.countable hn hsound)
    hfresh.type (inputs_create n.type c) houtputs

/-- The block of a node is read to what a load leaves of it, and to the edges. -/
theorem nodeOfBlock_write (h : g.Storable) {n : Node} (hn : n ∈ g.nodes) (hsound : n.Sound)
    (c : Context) :
    nodeOfBlock (Node.create n.type c).1 (g.blockOf n) =
      .ok (n.reloaded, g.edges.outgoing n.id) := by
  obtain ⟨b', hread, hrest⟩ := fills_blockOf h hn hsound c (Buffer.ofBytes (g.blockOf n)) [] (by
    rw [List.append_nil]
    exact Buffer.unread_ofBytes _)
  have hexhausted : b'.isExhausted = true := by
    have hlength := b'.length_unread
    rw [hrest] at hlength
    rw [Buffer.isExhausted, ← hlength]
    rfl
  unfold nodeOfBlock
  rw [hread]
  simp only [hexhausted, if_true]

/-- What has been read of a scene after one more node. -/
def readAlso (g : Graph) (done : Loaded) (n : Node) : Loaded where
  nodes := n.reloaded :: done.nodes
  edges := done.edges ++ g.edges.outgoing n.id
  context := (Node.create n.type done.context).2

theorem reads_readNode (h : g.Storable) {n : Node} (hn : n ∈ g.nodes) (hsound : n.Sound)
    {done : Loaded} (hid : n.id ∉ done.nodes.map Node.id) :
    (readNode n.type done).Reads (Wire.block.put (g.blockOf n)) (g.readAlso done n) := by
  have hfree : (done.nodes.any fun m => m.id == n.reloaded.id) = false := by
    rw [List.any_eq_false]
    intro m hm heq
    have hmid : m.id = n.reloaded.id := by simpa using heq
    exact hid (hmid ▸ List.mem_map_of_mem hm)
  unfold readNode
  refine (reads_getBlock (length_block_of_save h.size hn)).last ?_
  refine Reads.bind (x := []) (reads_ofExcept (nodeOfBlock_write h hn hsound done.context)) ?_
  simp only [hfree, Bool.false_eq_true, if_false]
  exact Reads.bind (x := []) (reads_pure _) (reads_pure _)

theorem reads_readNodes (h : g.Storable) {nodes : List Node} (hsub : ∀ n ∈ nodes, n ∈ g.nodes)
    (hsound : ∀ n ∈ nodes, n.Sound) {done : Loaded}
    (hids : (done.nodes.map Node.id ++ nodes.map Node.id).Nodup) :
    (readNodes done (nodes.map Node.type)).Reads
      (nodes.flatMap fun n => Wire.block.put (g.blockOf n)) (nodes.foldl g.readAlso done) := by
  induction nodes generalizing done with
  | nil => exact reads_pure done
  | cons n nodes ih =>
      have hfree : n.id ∉ done.nodes.map Node.id := by
        intro hmem
        exact (List.nodup_append.mp hids).2.2 _ hmem _ (by simp) rfl
      refine (reads_readNode h (hsub n (by simp)) (hsound n (by simp)) hfree).bind ?_
      refine ih (fun m hm => hsub m (by simp [hm])) (fun m hm => hsound m (by simp [hm])) ?_
      show (n.id :: done.nodes.map Node.id ++ nodes.map Node.id).Nodup
      rw [List.cons_append, ← List.perm_middle.nodup_iff]
      exact hids

theorem foldl_readAlso (nodes : List Node) (done : Loaded) :
    (nodes.foldl g.readAlso done).nodes = (nodes.map Node.reloaded).reverse ++ done.nodes ∧
      (nodes.foldl g.readAlso done).edges =
        done.edges ++ nodes.flatMap fun n => g.edges.outgoing n.id := by
  induction nodes generalizing done with
  | nil => simp
  | cons n nodes ih =>
      obtain ⟨hnodes, hedges⟩ := ih (g.readAlso done n)
      rw [List.foldl_cons, hnodes, hedges]
      simp [readAlso]

omit [Formula.Engine] in
/-- The counts are read when enough bytes follow. -/
theorem readCounts_of_length {count : Nat} (hcount : count < sizeLimit) (nextId : UInt32)
    {rest : List UInt8} (hrest : count ≤ rest.length) {b : Buffer}
    (hb : b.unread = Wire.u64.put (UInt64.ofNat count) ++ (Wire.u32.put nextId ++ rest)) :
    ∃ b', readCounts b = .ok (count, nextId) b' ∧ b'.unread = rest := by
  have hnat : (UInt64.ofNat count).toNat = count := UInt64.toNat_ofNat_of_lt' hcount
  obtain ⟨b₁, hb₁, hrest₁⟩ := reads_field (Wire.fixed_u64.exact (UInt64.ofNat count)) b _ hb
  obtain ⟨b₂, hb₂, hrest₂⟩ := reads_field (Wire.fixed_u32.exact nextId) b₁ _ hrest₁
  have henough : ¬b₂.remaining < count := by
    rw [← Buffer.length_unread, hrest₂]
    omega
  refine ⟨b₂, ?_, hrest₂⟩
  unfold readCounts
  simp only [Bind.bind, EStateM.bind, hb₁, hb₂, hnat, henough, if_false]
  rfl

omit [Formula.Engine] in
theorem reads_readType (t : NodeType) : readType.Reads (Wire.u8.put t.tag) t := by
  have htype : typeOf t.tag = .ok t := by
    rw [typeOf, NodeType.ofTag?_tag]
  unfold readType
  exact (reads_field (Wire.fixed_u8.exact t.tag)).last (reads_ofExcept htype)

omit [Formula.Engine] in
theorem u8_put (byte : UInt8) : Wire.u8.put byte = [byte] := by
  show Wire.littleEndian 1 byte.toNat = [byte]
  have hlt := byte.toNat_lt
  simp [Wire.littleEndian, Nat.mod_eq_of_lt hlt]

/-- The types of the nodes are read from their tags. -/
theorem reads_types (g : Graph) : (many readType g.nodes.length).Reads (g.nodes.map (·.type.tag))
    (g.nodes.map Node.type) := by
  have hmany : (many readType (g.nodes.map Node.type).length).Reads
      ((g.nodes.map Node.type).flatMap fun t => Wire.u8.put t.tag) (g.nodes.map Node.type) :=
    reads_many fun t _ => reads_readType t
  have hbytes : (g.nodes.map Node.type).flatMap (fun t => Wire.u8.put t.tag) =
      g.nodes.map (·.type.tag) := by
    simp only [u8_put, ← List.map_eq_flatMap, List.map_map]
    rfl
  rw [List.length_map, hbytes] at hmany
  exact hmany

/-- A saved scene is read to its nodes and edges and the next identity. -/
theorem readScene_save (h : g.Storable) (hnodup : g.ids.Nodup) (hsound : ∀ n ∈ g.nodes, n.Sound)
    (c : Context) :
    ∃ s b, readScene c (Buffer.ofBytes g.save) = .ok s b ∧
      s.nodes = g.nodes.map Node.reloaded ∧
      s.edges = (g.nodes.flatMap fun n => g.edges.outgoing n.id) ∧
      s.context.nextId = (g.nodes.map Node.reloaded).foldl (fun m n => max m (idAfter n.id))
        g.context.nextId := by
  have hunread : (Buffer.ofBytes g.save).unread = _ := (Buffer.unread_ofBytes g.save).trans g.save_eq
  have hlength : g.nodes.length ≤ (g.nodes.map (·.type.tag) ++
      g.nodes.flatMap fun n => Wire.block.put (g.blockOf n)).length := by
    rw [List.length_append, List.length_map]
    omega
  obtain ⟨b₁, hb₁, hrest₁⟩ :=
    readCounts_of_length (length_nodes_of_save h.size) g.context.nextId hlength hunread
  obtain ⟨b₂, hb₂, hrest₂⟩ := reads_types g b₁ _ hrest₁
  have hids : ((⟨[], [], c⟩ : Loaded).nodes.map Node.id ++ g.nodes.map Node.id).Nodup := hnodup
  obtain ⟨b₃, hb₃, -⟩ := reads_readNodes h (fun n hn => hn) hsound hids b₂ [] (by
    rw [List.append_nil]
    exact hrest₂)
  obtain ⟨hnodes, hedges⟩ := foldl_readAlso (g := g) g.nodes ⟨[], [], c⟩
  have hreverse : (g.nodes.foldl g.readAlso ⟨[], [], c⟩).nodes.reverse =
      g.nodes.map Node.reloaded := by
    rw [hnodes]
    simp
  refine ⟨{ g.nodes.foldl g.readAlso ⟨[], [], c⟩ with
      nodes := g.nodes.map Node.reloaded
      context := { (g.nodes.foldl g.readAlso ⟨[], [], c⟩).context with
        nextId := (g.nodes.map Node.reloaded).foldl (fun m n => max m (idAfter n.id))
          g.context.nextId } }, b₃, ?_, rfl, hedges, rfl⟩
  unfold readScene
  simp only [Bind.bind, EStateM.bind, hb₁, hb₂, hb₃, hreverse]
  rfl

end Reading

end Graph

end Patchbay
