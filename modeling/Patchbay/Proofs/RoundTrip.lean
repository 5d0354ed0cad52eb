import Patchbay.Formula.Basic
import Patchbay.Proofs.Freshness
import Patchbay.Proofs.Scenes
/-!
Saving and loading bring a graph back.

The nodes that were read are added in their order, and in a sorted list each
goes to the end.  The edges come producer by producer; each fits, because
the nodes have the inputs and outputs of those that were saved, and none
takes the place of another, because the saved table had one edge per input.
So the table is filled with the same edges, and what is saved of the loaded
graph is what was loaded.
-/

namespace Patchbay.Graph

open Bytes

/-! ## The nodes -/

variable [Formula.Engine]

theorem removeNode_of_not_mem {g : Graph} {id : NodeId} (h : id ∉ g.ids) : g.removeNode id = g := by
  unfold removeNode
  exact if_neg fun hmem => h (contains_iff.mp hmem)

/-- Nodes that are sorted behind the others are added at the end, in their order. -/
theorem foldl_addNode {nodes : List Node} {g : Graph}
    (hids : (g.ids ++ nodes.map Node.id).Nodup) (hsorted : Sorted (g.nodes ++ nodes)) :
    nodes.foldl addNode g = { g with nodes := g.nodes ++ nodes } := by
  induction nodes generalizing g with
  | nil => simp
  | cons n nodes ih =>
      have hfree : n.id ∉ g.ids := fun hmem =>
        (List.nodup_append.mp hids).2.2 _ hmem _ (by simp) rfl
      have hlast : insertByPriority n g.nodes = g.nodes ++ [n] := by
        refine insertByPriority_last fun m hm => ?_
        unfold Sorted at hsorted
        rw [List.map_append] at hsorted
        exact (List.pairwise_append.mp hsorted).2.2 _ (List.mem_map_of_mem hm) _ (by simp)
      have hadd : g.addNode n = { g with nodes := g.nodes ++ [n] } := by
        rw [addNode_eq, removeNode_of_not_mem hfree, inserted, hlast]
      rw [List.foldl_cons, hadd, ih]
      · simp
      · simpa [ids] using hids
      · simpa using hsorted

theorem ids_of_content {g k : Graph} (h : k.nodes.map Node.content = g.nodes.map Node.content) :
    k.ids = g.ids := by
  have hids := congrArg (List.map Content.id) h
  rw [List.map_map, List.map_map] at hids
  exact hids

theorem node?_content (g : Graph) (x : NodeId) :
    (g.node? x).map Node.content = (g.nodes.map Node.content).find? (·.id == x) := by
  rw [List.find?_map]
  rfl

/-- Graphs with the same contents have the same node under an identity. -/
theorem node?_of_content {g k : Graph} (h : k.nodes.map Node.content = g.nodes.map Node.content)
    {x : NodeId} {n : Node} (hn : g.node? x = some n) :
    ∃ m, k.node? x = some m ∧ m.content = n.content := by
  have hfind := k.node?_content x
  rw [h, ← g.node?_content x, hn] at hfind
  exact Option.map_eq_some_iff.mp hfind

/-! ## The edges -/

/-- An edge of a wired graph fits into every graph with the same contents. -/
theorem Wired.attachable {g k : Graph} (hw : g.Wired) {e : Edge} (he : e ∈ g.edges.edges)
    (h : k.nodes.map Node.content = g.nodes.map Node.content) :
    ∃ source target o i, Attachable k e source target o i := by
  have hsource := (hw.edge_iff e).mp he
  obtain ⟨consumer, hc, hports⟩ := source?_eq_some.mp hsource
  obtain ⟨p, hp, -⟩ := Directory.source?_eq_some.mp hports
  obtain ⟨producer, hproducer, hout⟩ := hw.producer _ _ _ hsource
  obtain ⟨target, htarget, hcontent⟩ := node?_of_content h hc
  obtain ⟨source, hsource', hcontent'⟩ := node?_of_content h hproducer
  have hinputs : target.ports.inputs.length = consumer.ports.inputs.length := by
    have hnames := congrArg (fun c => c.inputNames.length) hcontent
    simpa [Node.content, Directory.inputNames] using hnames
  have houtputs : source.ports.outputs.length = producer.ports.outputs.length := by
    have hvalues := congrArg (fun c => c.outputs.length) hcontent'
    simpa [Node.content] using hvalues
  obtain ⟨hi, -⟩ := List.getElem?_eq_some_iff.mp hp
  have ho : e.address.output.toNat < source.ports.outputs.length := by
    rw [houtputs]
    exact hout
  have hi' : e.address.input.toNat < target.ports.inputs.length := by
    rw [hinputs]
    exact hi
  exact ⟨source, target, _, _, hw.apart _ _ _ hsource, hsource', List.getElem?_eq_getElem ho,
    htarget, List.getElem?_eq_getElem hi'⟩

theorem reconnect_eq {k : Graph} {e : Edge} {source target : Node} {o : OutputPort}
    {i : InputPort} (h : Attachable k e source target o i) :
    k.reconnect e = k.attached e source o i := by
  have hconnect : k.connect e.producer e.address.output.toNat e.consumer e.address.input.toNat =
      .ok (e, k.attached e source o i) :=
    connect_eq_ok.mpr ⟨⟨rfl, rfl, rfl, rfl⟩, source, target, o, i, h, rfl⟩
  unfold reconnect
  rw [hconnect]

theorem content_attached {k : Graph} (e : Edge) (source : Node) (o : OutputPort) (i : InputPort) :
    (k.attached e source o i).nodes.map Node.content = k.nodes.map Node.content :=
  map_changeNode fun n _ _ => content_attachedNode e source o i n

omit [Formula.Engine] in
theorem edges_insert_of_not_mem {t : EdgeTable} {e : Edge} (h : e.slot ∉ t.edges.map Edge.slot) :
    (t.insert e).edges = t.edges ++ [e] := by
  unfold EdgeTable.insert
  rw [dif_neg h]

/-- Edges of a graph, no two of them on one input, are all connected in a graph with the same
contents. -/
theorem Wired.foldl_reconnect {g : Graph} (hw : g.Wired) {es : List Edge}
    (hsub : ∀ e ∈ es, e ∈ g.edges.edges) {k : Graph}
    (h : k.nodes.map Node.content = g.nodes.map Node.content)
    (hslots : ((k.edges.edges ++ es).map Edge.slot).Nodup) :
    (es.foldl reconnect k).nodes.map Node.content = g.nodes.map Node.content ∧
      (es.foldl reconnect k).edges.edges = k.edges.edges ++ es ∧
        (es.foldl reconnect k).context = k.context := by
  induction es generalizing k with
  | nil => exact ⟨h, (List.append_nil _).symm, rfl⟩
  | cons e es ih =>
      obtain ⟨source, target, o, i, ha⟩ := hw.attachable (hsub e (by simp)) h
      have hfree : e.slot ∉ k.edges.edges.map Edge.slot := by
        intro hmem
        rw [List.map_append] at hslots
        exact (List.nodup_append.mp hslots).2.2 _ hmem _ (by simp) rfl
      have hedges : (k.attached e source o i).edges.edges = k.edges.edges ++ [e] :=
        edges_insert_of_not_mem hfree
      rw [List.foldl_cons, reconnect_eq ha]
      obtain ⟨hnodes, hall, hcontext⟩ := ih (fun x hx => hsub x (by simp [hx]))
        ((content_attached e source o i).trans h) (by
          rw [hedges, List.append_assoc]
          exact hslots)
      refine ⟨hnodes, ?_, hcontext⟩
      rw [hall, hedges, List.append_assoc]
      rfl

/-- The edges of a graph, producer by producer. -/
def edgesByProducer (g : Graph) : List Edge := g.nodes.flatMap fun n => g.edges.outgoing n.id

theorem Wired.mem_edgesByProducer {g : Graph} (hw : g.Wired) {e : Edge} :
    e ∈ g.edgesByProducer ↔ e ∈ g.edges.edges := by
  unfold edgesByProducer
  rw [List.mem_flatMap]
  constructor
  · rintro ⟨n, _, he⟩
    exact (EdgeTable.mem_outgoing.mp he).1
  · intro he
    obtain ⟨n, hn, -⟩ := hw.producer _ _ _ ((hw.edge_iff e).mp he)
    exact ⟨n, mem_of_nodeIn? hn, EdgeTable.mem_outgoing.mpr ⟨he, (id_of_nodeIn? hn).symm⟩⟩

theorem nodup_slots {t : EdgeTable} {nodes : List Node} (hids : (nodes.map Node.id).Nodup) :
    ((nodes.flatMap fun n => t.outgoing n.id).map Edge.slot).Nodup := by
  induction nodes with
  | nil => exact List.nodup_nil
  | cons n nodes ih =>
      rw [List.map_cons, List.nodup_cons] at hids
      rw [List.flatMap_cons, List.map_append, List.nodup_append]
      refine ⟨t.slots_nodup.sublist (List.filter_sublist.map _), ih hids.2, ?_⟩
      rintro _ hs _ hs' rfl
      obtain ⟨e, he, hslot⟩ := List.mem_map.mp hs
      obtain ⟨e', he', hslot'⟩ := List.mem_map.mp hs'
      obtain ⟨m, hm, he'⟩ := List.mem_flatMap.mp he'
      obtain ⟨hmem, hproducer⟩ := EdgeTable.mem_outgoing.mp he
      obtain ⟨hmem', hproducer'⟩ := EdgeTable.mem_outgoing.mp he'
      have hsame := EdgeTable.eq_of_slot hmem hmem' (hslot.trans hslot'.symm)
      have hid : n.id = m.id := by rw [← hproducer, hsame, hproducer']
      exact hids.1 (hid ▸ List.mem_map_of_mem hm)

/-- Sorted by producers, the edges of one producer are in their old order. -/
theorem filter_outgoing {t : EdgeTable} {nodes : List Node} (hids : (nodes.map Node.id).Nodup)
    {n : Node} (hn : n ∈ nodes) :
    (nodes.flatMap fun m => t.outgoing m.id).filter (·.producer == n.id) = t.outgoing n.id := by
  have hother : ∀ m : Node, m.id ≠ n.id → (t.outgoing m.id).filter (·.producer == n.id) = [] := by
    intro m hm
    rw [List.filter_eq_nil_iff]
    intro e he heq
    have hproducer := (EdgeTable.mem_outgoing.mp he).2
    exact hm (hproducer.symm.trans (by simpa using heq))
  induction nodes with
  | nil => exact absurd hn (by simp)
  | cons m nodes ih =>
      rw [List.map_cons, List.nodup_cons] at hids
      rw [List.flatMap_cons, List.filter_append]
      rcases List.mem_cons.mp hn with rfl | hn
      · have hrest : (nodes.flatMap fun m => t.outgoing m.id).filter (·.producer == n.id) = [] := by
          rw [List.filter_flatMap, List.flatMap_eq_nil_iff]
          intro m hm
          exact hother m fun heq => hids.1 (heq ▸ List.mem_map_of_mem hm)
        rw [hrest, List.append_nil, EdgeTable.outgoing, List.filter_filter]
        simp
      · rw [hother m fun heq => hids.1 (heq ▸ List.mem_map_of_mem hn), List.nil_append]
        exact ih hids.2 hn

/-! ## The graph -/

/-- A graph that was saved is loaded with its contents and its edges. -/
theorem exists_load {g : Graph} (h : g.Reachable) (hs : g.Storable) (k : Graph) :
    ∃ g', k.load g.save = (.ok (), g') ∧ g'.nodes.map Node.content = g.nodes.map Node.content ∧
      g'.edges.edges = g.edgesByProducer ∧
        g'.context.nextId = g.nodes.foldl (fun m n => max m (idAfter n.id)) g.context.nextId := by
  obtain ⟨hw, hshape⟩ := standing_invariant.of_reachable h
  obtain ⟨s, b, hread, hnodes, hedges, hnext⟩ :=
    readScene_save hs hw.nodup hshape.sound k.clear.context
  have hids : s.nodes.map Node.id = g.ids := by
    rw [hnodes, List.map_map]
    rfl
  have hsorted : Sorted s.nodes := by
    unfold Sorted
    rw [hnodes, List.map_map]
    exact hshape.sorted
  have hadd : s.nodes.foldl addNode { k.clear with context := s.context } =
      { k.clear with nodes := s.nodes, context := s.context } := by
    refine foldl_addNode ?_ hsorted
    show ([] ++ s.nodes.map Node.id).Nodup
    rw [List.nil_append, hids]
    exact hw.nodup
  have hcontent : s.nodes.map Node.content = g.nodes.map Node.content := by
    rw [hnodes, List.map_map]
    exact List.map_congr_left fun n _ => n.content_reloaded
  have hsub : ∀ e ∈ s.edges, e ∈ g.edges.edges := by
    rw [hedges]
    exact fun e he => hw.mem_edgesByProducer.mp he
  have hslots : ((EdgeTable.empty.edges ++ s.edges).map Edge.slot).Nodup := by
    rw [hedges]
    exact nodup_slots hw.nodup
  obtain ⟨hnodes', hedges', hcontext⟩ := hw.foldl_reconnect hsub
    (k := { k.clear with nodes := s.nodes, context := s.context }) hcontent hslots
  refine ⟨k.clear.fill s, load_of_ok hread, ?_, ?_, ?_⟩
  · unfold fill
    rw [hadd]
    exact hnodes'
  · unfold fill
    rw [hadd]
    exact hedges'.trans hedges
  · unfold fill
    rw [hadd, hcontext]
    show s.context.nextId = _
    rw [hnext, List.foldl_map]
    rfl

omit [Formula.Engine] in
theorem toNat_idAfter (id : NodeId) : (idAfter id).toNat = min (id.val.toNat + 1) 0xffffffff := by
  have hfits : min (id.val.toNat + 1) 0xffffffff < UInt32.size :=
    Nat.lt_of_le_of_lt (Nat.min_le_right _ _) (by decide)
  exact UInt32.toNat_ofNat_of_lt' hfits

omit [Formula.Engine] in
theorem toNat_max (a b : UInt32) : (max a b).toNat = max a.toNat b.toNat := by
  show (if a ≤ b then b else a).toNat = _
  split
  · next h => exact (Nat.max_eq_right h).symm
  · next h => exact (Nat.max_eq_left (Nat.le_of_not_le h)).symm

/-- Identities below the next one do not raise it. -/
theorem foldl_idAfter {nodes : List Node} {next : UInt32} (h : ∀ n ∈ nodes, n.id.val < next) :
    nodes.foldl (fun m n => max m (idAfter n.id)) next = next := by
  induction nodes with
  | nil => rfl
  | cons n nodes ih =>
      have hid := UInt32.lt_iff_toNat_lt.mp (h n (by simp))
      have hmax : max next (idAfter n.id) = next := by
        refine UInt32.toNat_inj.mp ?_
        rw [toNat_max, toNat_idAfter]
        omega
      rw [List.foldl_cons, hmax]
      exact ih fun m hm => h m (by simp [hm])

/-- Graphs with the same contents, next identity and edges of each producer are saved alike. -/
theorem save_congr {g k : Graph} (h : k.nodes.map Node.content = g.nodes.map Node.content)
    (hnext : k.context.nextId = g.context.nextId)
    (hedges : ∀ n ∈ g.nodes, k.edges.outgoing n.id = g.edges.outgoing n.id) :
    k.save = g.save := by
  have hlength : k.nodes.length = g.nodes.length := by
    have hcount := congrArg List.length h
    simpa using hcount
  have htags : k.nodes.map (·.type.tag) = g.nodes.map (·.type.tag) := by
    have htypes := congrArg (List.map fun c => c.type.tag) h
    rw [List.map_map, List.map_map] at htypes
    exact htypes
  have hblocks : ∀ (ms ns : List Node), ms.map Node.content = ns.map Node.content →
      (∀ n ∈ ns, k.edges.outgoing n.id = g.edges.outgoing n.id) →
        (ms.flatMap fun n => Wire.block.put (k.blockOf n)) =
          ns.flatMap fun n => Wire.block.put (g.blockOf n) := by
    intro ms ns hcontent
    induction ns generalizing ms with
    | nil =>
        intro _
        have hms : ms = [] := by simpa using hcontent
        rw [hms, List.flatMap_nil, List.flatMap_nil]
    | cons n ns ih =>
        intro hout
        cases ms with
        | nil => exact absurd hcontent (by simp)
        | cons m ms =>
            simp only [List.map_cons, List.cons.injEq] at hcontent
            have hid : m.id = n.id := congrArg Content.id hcontent.1
            have hblock : k.blockOf m = g.blockOf n := by
              rw [blockOf, blockOf, hid, hout n (by simp)]
              exact Block.write_congr hcontent.1 _
            rw [List.flatMap_cons, List.flatMap_cons, hblock,
              ih ms hcontent.2 fun x hx => hout x (by simp [hx])]
  rw [save_eq, save_eq, hlength, hnext, htags, hblocks k.nodes g.nodes h hedges]

/-- A reachable graph whose identities are below the next one comes back from its scene, whatever
graph it is loaded into: the same contents in the same order, the same edges and the same next
identity.  Saved again it is the same scene. -/
theorem load_save {g : Graph} (h : g.Reachable) (hs : g.Storable)
    (hids : ∀ id ∈ g.ids, id.val < g.context.nextId) (k : Graph) :
    (k.load g.save).1 = .ok () ∧
      (k.load g.save).2.nodes.map Node.content = g.nodes.map Node.content ∧
      (∀ e, e ∈ (k.load g.save).2.edges.edges ↔ e ∈ g.edges.edges) ∧
      (k.load g.save).2.context.nextId = g.context.nextId ∧
      (k.load g.save).2.save = g.save := by
  obtain ⟨g', hload, hcontent, hedges, hnext⟩ := exists_load h hs k
  have hw := h.wired
  have hnext' : g'.context.nextId = g.context.nextId :=
    hnext.trans (foldl_idAfter fun n hn => hids n.id (List.mem_map_of_mem hn))
  rw [hload]
  refine ⟨rfl, hcontent, fun e => ?_, hnext', save_congr hcontent hnext' fun n hn => ?_⟩
  · show e ∈ g'.edges.edges ↔ _
    rw [hedges]
    exact hw.mem_edgesByProducer
  · rw [EdgeTable.outgoing, hedges]
    exact filter_outgoing hw.nodup hn

end Patchbay.Graph

/-! ## With the standard engine -/

namespace Patchbay.Graph

open Bytes

/-- A display that has run, and a camera whose mode waits to be switched. -/
def waitingCamera : Graph :=
  run [.create .value, .create .display, .connect ⟨0⟩ 0 ⟨2⟩ 0, .step Poll.none 0, .create .camera,
    .set ⟨5⟩ (.cameraMode .free)] (empty "waiting")

theorem storable_waitingCamera : waitingCamera.Storable where
  size := by decide +kernel
  inputs := by decide +kernel

/-- The camera is loaded into an empty graph with its edit. -/
theorem load_save_of_waitingCamera :
    waitingCamera.Reachable ∧ waitingCamera.Storable ∧
      (∀ id ∈ waitingCamera.ids, id.val < waitingCamera.context.nextId) ∧
      ((empty "copy").load waitingCamera.save).2.nodes.map Node.content =
        waitingCamera.nodes.map Node.content ∧
      ((empty "copy").load waitingCamera.save).2.save = waitingCamera.save := by
  have hreachable : waitingCamera.Reachable := ⟨_, _, rfl⟩
  have hids : ∀ id ∈ waitingCamera.ids, id.val < waitingCamera.context.nextId := by decide
  have hload := load_save hreachable storable_waitingCamera hids (empty "copy")
  exact ⟨hreachable, storable_waitingCamera, hids, hload.2.1, hload.2.2.2.2⟩

end Patchbay.Graph
