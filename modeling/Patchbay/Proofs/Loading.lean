import Patchbay.Formula.Basic
import Patchbay.Proofs.RoundTrip
/-!
A load forgets the graph it is made in.

A graph is cleared before a scene is read into it, and clearing leaves only
its name and the directory of its assets.  Nothing that a load does asks for
either of them: each of its steps commutes with a change of both
(`Graph.under`), so the graphs that two loads of the same bytes leave differ
in nothing else.  When the bytes are refused, what has been read of them is
dropped, and the graph stays cleared.
-/

namespace Patchbay

open Bytes

/-! ## Another directory for the assets -/

/-- A context with another directory for the assets. -/
def Context.rooted (root : Option String) (c : Context) : Context := { c with assetsRoot := root }

variable [Formula.Engine]

/-- Nodes get their identities and names without regard to the assets. -/
theorem Node.create_rooted (t : NodeType) (root : Option String) (c : Context) :
    Node.create t (c.rooted root) = ((Node.create t c).1, (Node.create t c).2.rooted root) := by
  have hallocate : (c.rooted root).allocate t.portCount =
      ((c.allocate t.portCount).1, (c.allocate t.portCount).2.rooted root) := by
    unfold Context.allocate
    by_cases hnext : c.nextId.toNat + t.portCount + 1 < Context.idLimit
    · exact (if_pos hnext).trans (by rw [if_pos hnext]; rfl)
    · exact (if_neg hnext).trans (by rw [if_neg hnext])
  unfold Node.create
  rw [hallocate]
  rfl

namespace Graph

/-- What has been read of a scene, with another directory for the assets. -/
def Loaded.rooted (root : Option String) (s : Loaded) : Loaded :=
  { s with context := s.context.rooted root }

section Readers
variable (root : Option String)

theorem readNode_rooted (t : NodeType) (done : Loaded) :
    readNode t (done.rooted root) = Loaded.rooted root <$> readNode t done := by
  obtain ⟨nodes, edges, c⟩ := done
  show readNode t ⟨nodes, edges, c.rooted root⟩ = _
  unfold readNode
  rw [map_bind]
  refine bind_congr fun bytes => ?_
  dsimp only
  rw [Node.create_rooted, map_bind]
  refine bind_congr fun (n, outgoing) => ?_
  dsimp only
  by_cases hthere : (nodes.any fun m => m.id == n.id) = true
  · rw [if_pos hthere, if_pos hthere]
    rfl
  · rw [if_neg hthere, if_neg hthere]
    rfl

theorem readNodes_rooted (types : List NodeType) (done : Loaded) :
    readNodes (done.rooted root) types = Loaded.rooted root <$> readNodes done types := by
  induction types generalizing done with
  | nil => rfl
  | cons t types ih =>
      show readNode t (done.rooted root) >>= (fun s => readNodes s types) =
        Loaded.rooted root <$> (readNode t done >>= fun s => readNodes s types)
      rw [readNode_rooted, map_bind, bind_map_left]
      exact bind_congr fun s => ih s

theorem readScene_rooted (c : Context) :
    readScene (c.rooted root) = Loaded.rooted root <$> readScene c := by
  unfold readScene
  rw [map_bind]
  refine bind_congr fun counts => ?_
  obtain ⟨count, nextId⟩ := counts
  rw [map_bind]
  refine bind_congr fun types => ?_
  show readNodes (Loaded.rooted root ⟨[], [], c⟩) types >>= _ = _
  rw [readNodes_rooted, map_bind, bind_map_left]
  refine bind_congr fun s => ?_
  rw [map_pure]
  rfl

end Readers

/-! ## The same graph under another name -/

/-- The graph under another name, with another directory for the assets. -/
def under (name : String) (root : Option String) (g : Graph) : Graph :=
  { g with name, context := g.context.rooted root }

section Edits
variable (name : String) (root : Option String) (g : Graph)

theorem addNode_under (n : Node) : (g.under name root).addNode n = (g.addNode n).under name root := by
  have hremove : (g.under name root).removeNode n.id = (g.removeNode n.id).under name root := by
    unfold removeNode
    by_cases hid : g.contains n.id = true
    · exact (if_pos hid).trans (by rw [if_pos hid]; rfl)
    · exact (if_neg hid).trans (by rw [if_neg hid])
  unfold addNode
  rw [hremove]
  rfl

theorem connect_under (producer : NodeId) (output : Nat) (consumer : NodeId) (input : Nat) :
    (g.under name root).connect producer output consumer input =
      (fun r => (r.1, r.2.under name root)) <$> g.connect producer output consumer input := by
  unfold connect
  by_cases hself : producer = consumer
  · rw [if_pos hself, if_pos hself]
    rfl
  · rw [if_neg hself, if_neg hself]
    simp only [map_bind, map_pure]
    rfl

theorem reconnect_under (e : Edge) :
    (g.under name root).reconnect e = (g.reconnect e).under name root := by
  unfold reconnect
  rw [connect_under]
  cases g.connect e.producer e.address.output.toNat e.consumer e.address.input.toNat with
  | ok r => rfl
  | error _ => rfl

theorem fill_under (s : Loaded) :
    (g.under name root).fill (s.rooted root) = (g.fill s).under name root := by
  have hnodes : s.nodes.foldl addNode (under name root { g with context := s.context }) =
      under name root (s.nodes.foldl addNode { g with context := s.context }) :=
    List.foldl_hom (under name root) fun k n => addNode_under name root k n
  have hedges : ∀ k : Graph,
      s.edges.foldl reconnect (k.under name root) = (s.edges.foldl reconnect k).under name root :=
    fun _ => List.foldl_hom (under name root) fun k e => reconnect_under name root k e
  unfold fill
  rw [← hedges, ← hnodes]
  rfl

end Edits

/-- A load into another graph does the same under that graph's name. -/
theorem load_under (g k : Graph) (bytes : List UInt8) :
    k.load bytes =
      ((g.load bytes).1, (g.load bytes).2.under k.name k.context.assetsRoot) := by
  have hread : readScene k.clear.context =
      Loaded.rooted k.context.assetsRoot <$> readScene g.clear.context :=
    readScene_rooted k.context.assetsRoot g.clear.context
  have hclear : k.clear = g.clear.under k.name k.context.assetsRoot := rfl
  cases hresult : readScene g.clear.context (Buffer.ofBytes bytes) with
  | ok s b =>
      have hother : readScene k.clear.context (Buffer.ofBytes bytes) =
          .ok (s.rooted k.context.assetsRoot) b := by
        rw [hread]
        simp only [Functor.map, EStateM.map, hresult]
      rw [load_of_ok hresult, load_of_ok hother, hclear, fill_under]
  | error e b =>
      have hother : readScene k.clear.context (Buffer.ofBytes bytes) = .error e b := by
        rw [hread]
        simp only [Functor.map, EStateM.map, hresult]
      rw [load_of_error hresult, load_of_error hother, hclear]

/-! ## The next identity -/

section Identities

/-- The next identity is behind that of every node. -/
def Numbered (g : Graph) : Prop := ∀ id ∈ g.ids, idAfter id ≤ g.context.nextId

/-- The greatest of some identities is not below any of them. -/
theorem le_foldl_idAfter (nodes : List Node) (next : UInt32) :
    next ≤ nodes.foldl (fun m n => max m (idAfter n.id)) next ∧
      ∀ n ∈ nodes, idAfter n.id ≤ nodes.foldl (fun m n => max m (idAfter n.id)) next := by
  induction nodes generalizing next with
  | nil => exact ⟨UInt32.le_refl next, fun n hn => absurd hn (by simp)⟩
  | cons n nodes ih =>
      obtain ⟨hnext, hall⟩ := ih (max next (idAfter n.id))
      have hle : next ≤ max next (idAfter n.id) ∧ idAfter n.id ≤ max next (idAfter n.id) := by
        rw [UInt32.le_iff_toNat_le, UInt32.le_iff_toNat_le, toNat_max]
        exact ⟨Nat.le_max_left _ _, Nat.le_max_right _ _⟩
      exact ⟨UInt32.le_trans hle.1 hnext,
        List.forall_mem_cons.mpr ⟨UInt32.le_trans hle.2 hnext, hall⟩⟩

/-- A scene is read with a next identity behind that of all its nodes. -/
theorem numbered_readScene (c : Context) :
    (readScene c).Yields fun s => ∀ n ∈ s.nodes, idAfter n.id ≤ s.context.nextId := by
  unfold readScene
  refine BlockReader.yields_after fun (count, nextId) => ?_
  refine BlockReader.yields_after fun types => ?_
  refine BlockReader.yields_after fun s => ?_
  exact BlockReader.yields_pure (le_foldl_idAfter s.nodes.reverse nextId).2

theorem context_removeNode (g : Graph) (id : NodeId) : (g.removeNode id).context = g.context := by
  unfold removeNode
  split
  · rfl
  · rfl

theorem Numbered.add {g : Graph} (h : g.Numbered) {n : Node}
    (hn : idAfter n.id ≤ g.context.nextId) : (g.addNode n).Numbered := by
  intro id hid
  show idAfter id ≤ (g.removeNode n.id).context.nextId
  rw [context_removeNode]
  obtain ⟨m, hm, rfl⟩ := List.mem_map.mp hid
  rcases mem_insertByPriority.mp hm with rfl | hm
  · exact hn
  · have hmem : m.id ∈ (g.removeNode n.id).ids := List.mem_map_of_mem hm
    rw [ids_removeNode] at hmem
    exact h m.id (List.mem_filter.mp hmem).1

theorem Numbered.addAll {nodes : List Node} {g : Graph} (h : g.Numbered)
    (hnodes : ∀ n ∈ nodes, idAfter n.id ≤ g.context.nextId) : (nodes.foldl addNode g).Numbered := by
  induction nodes generalizing g with
  | nil => exact h
  | cons n nodes ih =>
      refine ih (h.add (hnodes n (by simp))) fun m hm => ?_
      show idAfter m.id ≤ (g.removeNode n.id).context.nextId
      rw [context_removeNode]
      exact hnodes m (by simp [hm])

theorem Numbered.reconnect {g : Graph} (h : g.Numbered) (e : Edge) : (g.reconnect e).Numbered := by
  unfold Graph.reconnect
  split
  · next e' k hconnect =>
      obtain ⟨-, source, target, o, i, -, rfl⟩ := connect_eq_ok.mp hconnect
      intro id hid
      rw [ids_attached] at hid
      exact h id hid
  · exact h

theorem Numbered.reconnectAll {g : Graph} (h : g.Numbered) (edges : List Edge) :
    (edges.foldl Graph.reconnect g).Numbered := by
  induction edges generalizing g with
  | nil => exact h
  | cons e edges ih => exact ih (h.reconnect e)

/-- After a load the next identity is behind that of every node, whatever the bytes are. -/
theorem numbered_load (g : Graph) (bytes : List UInt8) : (g.load bytes).2.Numbered := by
  have hclear : ∀ c : Context, Numbered { g.clear with context := c } := by
    intro c id hid
    exact absurd hid (by simp [ids, clear])
  cases hread : readScene g.clear.context (Buffer.ofBytes bytes) with
  | error e b =>
      rw [load_of_error hread]
      exact hclear g.clear.context
  | ok s b =>
      rw [load_of_ok hread]
      have hnodes := numbered_readScene g.clear.context _ _ _ hread
      exact ((hclear s.context).addAll hnodes).reconnectAll s.edges

end Identities

/-! ## Loads -/

/-- No nodes and no edges, and identities, names and the clock start anew. -/
structure Blank (g : Graph) : Prop where
  nodes : g.nodes = []
  edges : g.edges.edges = []
  nextId : g.context.nextId = 0
  named : g.context.named = []
  clock : g.context.clock = ⟨0, 0, 0⟩

/-- The same nodes and edges, and the same identities and names to give out. -/
structure SameScene (g k : Graph) : Prop where
  nodes : k.nodes = g.nodes
  edges : k.edges = g.edges
  nextId : k.context.nextId = g.context.nextId
  named : k.context.named = g.context.named

theorem blank_clear (g : Graph) : g.clear.Blank := ⟨rfl, rfl, rfl, rfl, rfl⟩

theorem sameScene_under (name : String) (root : Option String) (g : Graph) :
    g.SameScene (g.under name root) := ⟨rfl, rfl, rfl, rfl⟩

/-- Whether bytes are accepted depends on them alone.  When they are not, the graph is as after it
was cleared.  When they are, the bytes alone decide what the graph holds and which identities and
names it gives out next; no two of its nodes have one identity, and the next one is behind that of
each. -/
theorem load_all_or_nothing (g : Graph) (bytes : List UInt8) :
    (∀ k : Graph, (k.load bytes).1 = (g.load bytes).1) ∧
      (∀ e, (g.load bytes).1 = .error e → (g.load bytes).2 = g.clear ∧ (g.load bytes).2.Blank) ∧
        ((g.load bytes).1 = .ok () →
          (∀ k : Graph, (g.load bytes).2.SameScene (k.load bytes).2) ∧
            (g.load bytes).2.ids.Nodup ∧
              ∀ id ∈ (g.load bytes).2.ids,
                min (id.val.toNat + 1) 0xffffffff ≤ (g.load bytes).2.context.nextId.toNat) := by
  refine ⟨fun k => ?_, fun e he => ?_, fun _ => ⟨fun k => ?_, ?_, fun id hid => ?_⟩⟩
  · rw [load_under g k bytes]
  · have hclear : (g.load bytes).2 = g.clear := by
      cases hread : readScene g.clear.context (Buffer.ofBytes bytes) with
      | error e b => rw [load_of_error hread]
      | ok s b =>
          rw [load_of_ok hread] at he
          exact nomatch he
    exact ⟨hclear, hclear ▸ blank_clear g⟩
  · rw [load_under g k bytes]
    exact sameScene_under _ _ _
  · exact (wired_invariant.load g bytes).nodup
  · have hnext := UInt32.le_iff_toNat_le.mp (numbered_load g bytes id hid)
    rw [toNat_idAfter] at hnext
    exact hnext

end Graph

end Patchbay

/-! ## With the standard engine -/

namespace Patchbay.Graph

open Bytes

/-- A scene that is loaded over itself and into another graph, and no bytes at all. -/
theorem load_all_or_nothing_of_waitingCamera :
    (waitingCamera.load waitingCamera.save).1 = .ok () ∧
      (waitingCamera.load waitingCamera.save).2.SameScene
        ((empty "copy").load waitingCamera.save).2 ∧
      (∃ e, (waitingCamera.load []).1 = .error e) ∧ (waitingCamera.load []).2.Blank := by
  have hreachable : waitingCamera.Reachable := ⟨_, _, rfl⟩
  obtain ⟨k, hload, -⟩ := exists_load hreachable storable_waitingCamera waitingCamera
  have hok : (waitingCamera.load waitingCamera.save).1 = .ok () := by rw [hload]
  have herror : ∃ e, (waitingCamera.load []).1 = .error e := by
    have hrefuse : (waitingCamera.load []).1.isOk = false := by decide +kernel
    cases h : (waitingCamera.load []).1 with
    | error e => exact ⟨e, rfl⟩
    | ok u =>
        rw [h] at hrefuse
        exact nomatch hrefuse
  obtain ⟨e, he⟩ := herror
  obtain ⟨-, -, haccepted⟩ := load_all_or_nothing waitingCamera waitingCamera.save
  obtain ⟨-, hrefused, -⟩ := load_all_or_nothing waitingCamera []
  exact ⟨hok, (haccepted hok).1 (empty "copy"), ⟨e, he⟩, (hrefused e he).2⟩

end Patchbay.Graph
