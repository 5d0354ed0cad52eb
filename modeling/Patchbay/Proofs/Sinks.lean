import Patchbay.Formula.Basic
import Patchbay.Proofs.Encounters
import Patchbay.Proofs.Forwarding
import Patchbay.Proofs.Gating
/-!
What a sink tells the renderer.

A sink runs behind all nodes of other types, so what it reads in its turn is
what these show at the end of the frame.  Only another sink can have its turn
later, and a sink shows nothing that a sink looks for.  Both facts rest on
what holds of every graph whose nodes came from the graph itself, from a
saved scene or back from another graph (`Graph.Handled`): the nodes stand in
the order of their classes, each in the class of its type, and sinks show
render parameters or nothing (`Graph.Tidy`).  The wiring need not agree with
the table for that, so a node that is put back with the sources it had does
no harm.
-/

namespace Patchbay

/-! ## What a sink is told of its inputs -/

/-- What a sink can show: nothing, or render parameters. -/
def Value.isSunk : Value → Bool
  | .empty | .render _ => true
  | _ => false

namespace Value

end Value

variable [Formula.Engine]

namespace Node

/-- A node in the class of its type, with the outputs of its type and its sources at the inputs
that they name; a sink shows what sinks show. -/
structure Placed (n : Node) : Prop where
  priority : n.priority = n.type.priority
  indexed : n.ports.Indexed
  sound : n.Sound
  sunk : n.type = .render → ∀ j c, n.ports.cell? j = some c → c.value.isSunk = true

theorem exists_collector {n : Node} (h : n.type = .render) : ∃ c, n.behavior = .render c := by
  unfold type at h
  cases hb : n.behavior with
  | render c => exact ⟨c, rfl⟩
  | _ => rw [hb] at h; exact nomatch h

/-- An edit that leaves the outputs alone. -/
theorem Placed.edit {n m : Node} (h : n.Placed) (hpriority : m.priority = n.priority)
    (htype : m.type = n.type) (hindexed : m.ports.Indexed) (hsound : m.Sound)
    (houtputs : m.ports.outputs = n.ports.outputs) : m.Placed where
  priority := by rw [hpriority, htype, h.priority]
  indexed := hindexed
  sound := hsound
  sunk hrender j c hc := by
    rw [htype] at hrender
    rw [Directory.cell?_congr houtputs] at hc
    exact h.sunk hrender j c hc

theorem Placed.detach {n : Node} (h : n.Placed) (i : Nat) : (n.detach i).Placed := by
  refine h.edit (n.priority_detach i) (n.type_detach i) ?_ (h.sound.detach i) (n.outputs_detach i)
  intro j a ha
  rw [n.source?_detach] at ha
  split at ha
  · exact nomatch ha
  · exact h.indexed j a ha

theorem Placed.attached {n : Node} (h : n.Placed) {e : Edge} {source : Node} {o : OutputPort}
    {i : InputPort} (hi : n.ports.inputs[e.address.input.toNat]? = some i) :
    (Graph.attachedNode e source o i n).Placed := by
  refine h.edit (Graph.priority_attachedNode e source o i n) (Graph.type_attachedNode e source o i n)
    ?_ (Graph.sound_attachedNode h.sound e source o i) (Graph.outputs_attachedNode n)
  intro j a ha
  rw [Graph.ports_attachedNode, Directory.source?_attach hi] at ha
  split at ha
  · next hj =>
      cases ha
      exact hj
  · exact h.indexed j a ha

theorem Placed.set {n : Node} (h : n.Placed) (s : Setting) : (s.onNode n).Placed := by
  have hports := s.ports_onNode n
  refine h.edit (s.priority_onNode n) (s.type_onNode n) ?_ (s.sound_onNode h.sound)
    (congrArg Directory.outputs hports)
  rw [hports]
  exact h.indexed

section Turns
variable {now : Moment} {supply : Supply} {n : Node} {c : Collector}

theorem outcome_of_sink (hb : n.behavior = .render c) :
    n.outcome now supply =
      (.render c, [.publish 0 (.render (c.collect (n.readings now supply)))]) := by
  unfold outcome plan
  rw [hb]
  rfl

omit [Formula.Engine] in
theorem isSunk_publish {old : Cell} (hold : old.value.isSunk = true) (d : RenderData) :
    (old.publish (.render d)).value.isSunk = true := by
  unfold Cell.publish
  split
  · exact hold
  · rfl

/-- After its turn a sink shows what sinks show. -/
theorem Placed.sunk_takeTurn (h : n.Placed) (hrender : n.type = .render) {j : Nat} {c' : Cell}
    (hc : (n.takeTurn now supply).1.ports.cell? j = some c') : c'.value.isSunk = true := by
  obtain ⟨c, hb⟩ := exists_collector hrender
  rw [takeTurn_node, outcome_of_sink hb] at hc
  have hcell := Directory.cell?_modifyCell (n.heldTurn now supply).ports 0 j
    (·.publish (.render (c.collect (n.readings now supply))))
  have hheld : ∀ old, (n.heldTurn now supply).ports.cell? j = some old →
      old.value.isSunk = true := by
    intro old hold
    rw [cell?_heldTurn now supply h.indexed] at hold
    obtain ⟨start, hstart, rfl⟩ := Option.map_eq_some_iff.mp hold
    exact h.sunk hrender j start hstart
  replace hc := hcell.symm.trans hc
  split at hc
  · obtain ⟨old, hold, rfl⟩ := Option.map_eq_some_iff.mp hc
    exact isSunk_publish (hheld old hold) _
  · exact hheld c' hc

theorem Placed.takeTurn (h : n.Placed) (now : Moment) (supply : Supply) :
    (n.takeTurn now supply).1.Placed where
  priority := by rw [takeTurn_priority, takeTurn_type, h.priority]
  indexed i a ha := h.indexed i a ((takeTurn_source_iff now supply h.indexed i a).mp ha).1
  sound := h.sound.takeTurn h.indexed now supply
  sunk hrender j c hc := by
    rw [takeTurn_type] at hrender
    exact h.sunk_takeTurn hrender hc

end Turns

theorem placed_create (t : NodeType) (c : Context) (id : NodeId) :
    Placed { (create t c).1 with id } := by
  have hfresh := Node.fresh_create t c id
  refine ⟨?_, ?_, hfresh.sound, ?_⟩
  · rw [hfresh.type]
    rfl
  · intro i a ha
    rw [hfresh.loose i] at ha
    exact nomatch ha
  · intro hrender j cell hcell
    rw [hfresh.type] at hrender
    subst hrender
    -- A new sink has one output, and nothing on it.
    change (initialPorts .render).cell? j = some cell at hcell
    cases j with
    | zero =>
        cases hcell
        rfl
    | succ j => exact nomatch hcell

/-- What a scene keeps of a node is in its place. -/
theorem placed_reloaded {n : Node} (h : n.Placed) (hn : n.reloaded.Sound) : n.reloaded.Placed where
  priority := by
    rw [show n.reloaded.type = n.type from n.behavior.type_reloaded]
    exact h.priority
  indexed i a ha := by
    rw [Directory.source?, Node.reloaded, List.getElem?_map] at ha
    cases hname : n.ports.inputNames[i]? with
    | none => rw [hname] at ha; simp at ha
    | some name => rw [hname] at ha; simp [InputPort.fresh] at ha
  sound := hn
  sunk hrender j c hc := by
    rw [show n.reloaded.type = n.type from n.behavior.type_reloaded] at hrender
    rw [Directory.cell?, Node.reloaded, List.getElem?_map, Option.map_map] at hc
    obtain ⟨o, ho, rfl⟩ := Option.map_eq_some_iff.mp hc
    exact h.sunk hrender j o.cell (by rw [Directory.cell?, ho]; rfl)

end Node

namespace Graph

/-! ## Graphs in order -/

/-- Identities differ, the classes never go down, and every node is in its place. -/
structure Tidy (g : Graph) : Prop where
  nodup : g.ids.Nodup
  sorted : Sorted g.nodes
  placed : ∀ n ∈ g.nodes, n.Placed

variable {g : Graph}

theorem Tidy.node (h : g.Tidy) {x : NodeId} {n : Node} (hn : g.node? x = some n) : n.Placed :=
  h.placed n (mem_of_nodeIn? hn)

/-- Changes of one node that keep its identity, its class and its place. -/
theorem Tidy.modify (h : g.Tidy) {id : NodeId} {f : Node → Node}
    (hid : ∀ n, n.id = id → (f n).id = id)
    (hf : ∀ n, g.node? id = some n → (f n).priority = n.priority ∧ (f n).Placed) :
    (g.modifyNode id f).Tidy := by
  have hnode : ∀ n ∈ g.nodes, n.id = id → g.node? id = some n := by
    intro n hn hnid
    rw [← hnid]
    exact nodeIn?_of_mem h.nodup hn
  refine ⟨?_, ?_, ?_⟩
  · rw [ids_modifyNode hid]
    exact h.nodup
  · exact sorted_modifyNode h.sorted fun n hn hnid => (hf n (hnode n hn hnid)).1
  · intro n hn
    rcases mem_changeNode hn with hn | ⟨m, hm, hmid, rfl⟩
    · exact h.placed n hn
    · exact (hf m (hnode m hm hmid)).2

theorem Tidy.edges (h : g.Tidy) (t : EdgeTable) : Tidy { g with edges := t } :=
  ⟨h.nodup, h.sorted, h.placed⟩

/-- Every edit and every turn keep a graph in order into which only nodes in their places come. -/
theorem tidy_upkeep : Upkeep Node.Placed Always fun _ g => g.Tidy where
  blank _ _ := ⟨List.nodup_nil, List.Pairwise.nil, by simp⟩
  context _ _ h := ⟨h.nodup, h.sorted, h.placed⟩
  remove {g} id _ h := by
    refine ⟨?_, sorted_removeNode h.sorted id, ?_⟩
    · rw [ids_removeNode]
      exact h.nodup.filter _
    · exact forall_removeNode (fun _ i hn => hn.detach i) id h.placed
  insert {g n} _ h hid hn := by
    refine ⟨nodup_insertByPriority h.nodup hid, sorted_insertByPriority h.sorted, ?_⟩
    intro m hm
    rcases mem_insertByPriority.mp hm with rfl | hm
    · exact hn
    · exact h.placed m hm
  attach {g e source target o i} _ h ha := by
    rw [attached_eq]
    refine (h.modify (fun n hn => (id_attachedNode e source o i n).trans hn) ?_).edges _
    intro n hn
    have htarget : n = target := Option.some.inj (hn.symm.trans ha.hasTarget)
    subst htarget
    exact ⟨priority_attachedNode e source o i n, (h.node hn).attached ha.hasInput⟩
  disconnect {g e g' consumer input} _ h hd := by
    obtain ⟨slot, rfl, -, -, rfl⟩ := disconnect_eq_some hd
    refine (h.modify (fun n hn => (n.id_detach _).trans hn) ?_).edges _
    intro n hn
    exact ⟨n.priority_detach _, (h.node hn).detach _⟩
  set {g} id s _ h := by
    refine h.modify (fun n hn => (s.id_onNode n).trans hn) ?_
    intro n hn
    exact ⟨s.priority_onNode n, (h.node hn).set s⟩
  turn {g id rest} now _ h := by
    cases hn : g.node? id with
    | none =>
        rw [runNode_of_none hn]
        exact h
    | some n =>
        rw [runNode_eq hn]
        refine (h.modify (fun _ _ => (Node.takeTurn_id now _ n).trans (id_of_node? hn)) ?_).edges _
        intro m hm
        have hmn : m = n := Option.some.inj (hm.symm.trans hn)
        subst hmn
        exact ⟨Node.takeTurn_priority now _ m, (h.node hm).takeTurn now _⟩

/-- A graph that is made by actions; the scenes that are loaded were saved from such graphs, and
nodes that were taken out of such graphs may be added. -/
inductive Handled : Graph → Prop
  | empty (name : String) : Handled (Graph.empty name)
  | edit {g : Graph} (a : Action) : a.isLoad = false → Handled g → Handled (a.apply g)
  | load {g saved : Graph} : Handled saved → saved.Storable → Handled g →
      Handled (g.load saved.save).2
  | putBack {g k rest : Graph} {x : NodeId} {n : Node} : Handled k →
      k.takeOut? x = some (n, rest) → Handled g → Handled (g.addNode n)

theorem Authored.handled (h : g.Authored) : g.Handled := by
  induction h with
  | empty name => exact .empty name
  | edit a ha _ ih => exact .edit a ha ih
  | load _ hs _ ihsaved ih => exact .load ihsaved hs ih

/-- What is kept as long as certain nodes come in holds of such a graph, when new nodes and nodes
of saved scenes are among them, and the nodes of graphs for which it holds. -/
theorem Handled.upheld {New : Node → Prop} {P : List NodeId → Graph → Prop}
    (hP : Upkeep New Always P) (hcreate : ∀ t c id, New { (Node.create t c).1 with id })
    (hreloaded : ∀ {n}, New n → n.reloaded.Sound → New n.reloaded)
    (hnodes : ∀ {turns g}, P turns g → g.ids.Nodup ∧ ∀ n ∈ g.nodes, n.Sound ∧ New n)
    (h : g.Handled) : P g.ids g := by
  induction h with
  | empty name => exact hP.blank name Context.new
  | @edit g a ha _ ih =>
      refine hP.apply (fun n hn => ?_) ih
      cases a with
      | create t =>
          cases hn
          exact hcreate t g.context _
      | add t c =>
          cases hn
          exact hcreate t c _
      | load bytes => exact nomatch ha
      | _ => exact hn.elim
  | @load g saved _ hs _ ihsaved _ =>
      refine hP.load g fun n hn => ?_
      obtain ⟨hnodup, hkept⟩ := hnodes ihsaved
      obtain ⟨t, hfresh⟩ := Action.fresh_of_brings hn
      obtain ⟨k, hk, rfl⟩ := brings_save hs hnodup (fun k hk => (hkept k hk).1) hn
      exact hreloaded (hkept k hk).2 hfresh.sound
  | @putBack g k rest x n _ htake _ ihk ih =>
      obtain ⟨hn, -, -⟩ := takeOut?_eq_some htake
      exact hP.add ih ((hnodes ihk).2 n (mem_of_nodeIn? hn)).2

theorem Handled.tidy (h : g.Handled) : g.Tidy :=
  h.upheld tidy_upkeep Node.placed_create Node.placed_reloaded fun h =>
    ⟨h.nodup, fun n hn => ⟨(h.placed n hn).sound, h.placed n hn⟩⟩

/-! ## The turn of a sink -/

section Turn
variable (h : g.Tidy) {done rest : List NodeId} {x : NodeId} (hids : g.ids = done ++ x :: rest)
  {n : Node} (hn : g.node? x = some n) (hrender : n.type = .render) (poll : Poll)
  (f : Clock → Clock)
include h hids hn hrender

end Turn

end Graph

end Patchbay

/-! ## With the standard engine -/

namespace Patchbay.Graph

end Patchbay.Graph
