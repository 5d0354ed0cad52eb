import Patchbay.Graph.Frame
import Patchbay.Proofs.Nodes
import Patchbay.Proofs.Reading
/-!
The graphs that can be reached, and what holds of all of them.

An action is one call of a user: making, adding and removing nodes, wiring,
setting a field of a node, running a frame, clearing, and loading whatever
bytes.  A graph is reachable when a list of actions leads to it from an
empty one.

An invariant may speak of the order in which nodes have their next turns.
Between actions that is the order of the graph; within a frame a node that
has had its turn goes to the end.  `Invariant` lists what one edit and one
turn have to keep, and `Invariant.of_reachable` draws the conclusion for
every reachable graph, through frames that are half done and through loads.
`Upkeep` is the same for what holds only as long as no other nodes come in
than those of a certain kind; an action says which nodes it brings in.
-/

namespace Patchbay

/-! ## Settings -/

/-- A field of a node, and what it is set to. -/
inductive Setting where
  | name (text : String)
  | geometry (place : Geometry)
  | scalar (s : Scalar)
  | constant (v : Value)
  | components (v : Vec4)
  | color (v : Vec4)
  | operation (o : Operation)
  | arity (r : Rank)
  | formula (source : String)
  | element (k : ElementKind)
  | dimension (r : Rank)
  | listVariables (names : String)
  | componentFormula (component : Nat) (source : String)
  | index (i : Int32)
  | meshPath (path : String)
  | cameraMode (m : CameraMode)
  | cameraPosition (v : Vec3)
  | cameraForward (v : Vec3)
  | fog (start stop : Single) (color : Vec3)
  | pathMode (m : PathMode)
  | pathStart (v : Vec3)
  | delta (v : Vec3)

variable [Formula.Engine]

namespace Setting

/-- The behavior with the field set; a node of a type without the field stays as it is. -/
def onBehavior : Setting → Behavior → Behavior
  | scalar s, .value c => .value (c.setScalar s)
  | constant v, .value c => .value ((Constant.setValue? v).getD c)
  | components v, .vector _ => .vector (Quadruple.set v)
  | color v, .color _ => .color (Tint.set v)
  | operation o, .math a => .math { a with operation := o }
  | arity r, .function e => .function (e.setArity r)
  | formula source, .function e => .function (e.setExpression source)
  | element k, .list l => .list (l.setElement k)
  | dimension r, .list l => .list (l.setDimension r)
  | listVariables names, .list l => .list (l.setVariables names)
  | componentFormula i source, .list l => .list (l.setExpression i source)
  | index i, .listAccess s => .listAccess (s.setIndex i)
  | meshPath path, .mesh m => .mesh (m.setPath path)
  | cameraMode m, .camera c => .camera (c.setMode m)
  | cameraPosition v, .camera c => .camera (c.setPosition v)
  | cameraForward v, .camera c => .camera (c.setForward v)
  | fog start stop c, .render _ => .render (Collector.setFog start stop c)
  | pathMode m, .path p => .path (p.setMode m)
  | pathStart v, .path p => .path (p.setStart v)
  | delta v, .worldPos o => .worldPos (o.set v)
  | _, b => b

theorem type_onBehavior (s : Setting) (b : Behavior) : (s.onBehavior b).type = b.type := by
  cases s <;> first | rfl | (cases b <;> rfl)

/-- The node with the field set; a blank name is refused. -/
def onNode (s : Setting) (n : Node) : Node :=
  match s with
  | name text => n.renamed text
  | geometry place => { n with geometry := place }
  | s => { n with behavior := s.onBehavior n.behavior }

end Setting

/-- A setting changes the name, the place on the screen or the behavior. -/
theorem Setting.onNode_cases (s : Setting) (n : Node) :
    (∃ text, Text.isBlankText text = false ∧ s.onNode n = { n with name := text }) ∨
      (∃ place, s.onNode n = { n with geometry := place }) ∨
        s.onNode n = { n with behavior := s.onBehavior n.behavior } := by
  cases s with
  | name text =>
      by_cases h : Text.isBlankText text = true
      · refine Or.inr (Or.inr ?_)
        show n.renamed text = _
        rw [Node.renamed_eq, if_pos h]
        rfl
      · refine Or.inl ⟨text, by simpa using h, ?_⟩
        show n.renamed text = _
        rw [Node.renamed_eq, if_neg h]
  | geometry place => exact Or.inr (Or.inl ⟨place, rfl⟩)
  | _ => exact Or.inr (Or.inr rfl)

theorem Setting.id_onNode (s : Setting) (n : Node) : (s.onNode n).id = n.id := by
  rcases s.onNode_cases n with ⟨_, _, h⟩ | ⟨_, h⟩ | h <;> rw [h]

theorem Setting.priority_onNode (s : Setting) (n : Node) :
    (s.onNode n).priority = n.priority := by
  rcases s.onNode_cases n with ⟨_, _, h⟩ | ⟨_, h⟩ | h <;> rw [h]

theorem Setting.ports_onNode (s : Setting) (n : Node) : (s.onNode n).ports = n.ports := by
  rcases s.onNode_cases n with ⟨_, _, h⟩ | ⟨_, h⟩ | h <;> rw [h]

theorem Setting.type_onNode (s : Setting) (n : Node) : (s.onNode n).type = n.type := by
  rcases s.onNode_cases n with ⟨_, _, h⟩ | ⟨_, h⟩ | h <;> rw [h]
  · rfl
  · rfl
  · exact s.type_onBehavior n.behavior

theorem Setting.named_onNode (s : Setting) {n : Node} (hn : Text.isBlankText n.name = false) :
    Text.isBlankText (s.onNode n).name = false := by
  rcases s.onNode_cases n with ⟨text, htext, h⟩ | ⟨_, h⟩ | h <;> rw [h]
  · exact htext
  · exact hn
  · exact hn

theorem Setting.sound_onNode (s : Setting) {n : Node} (hn : n.Sound) : (s.onNode n).Sound where
  outputs := by
    rw [s.ports_onNode, s.type_onNode]
    exact hn.outputs
  named := s.named_onNode hn.named
  countable := by
    rw [s.ports_onNode, s.type_onNode]
    exact hn.countable

/-! ## Actions -/

namespace Graph

/-- What a user can do to a graph.  `use` puts another context in place; with it stands whatever
is done to the context alone. -/
inductive Action where
  | create (t : NodeType)
  | add (t : NodeType) (c : Context)
  | remove (id : NodeId)
  | connect (producer : NodeId) (output : Nat) (consumer : NodeId) (input : Nat)
  | connectNamed (producer : NodeId) (output : String) (consumer : NodeId) (input : String)
  | disconnect (consumer : NodeId) (input : Nat)
  | set (id : NodeId) (s : Setting)
  | step (poll : Poll) (dt : Nat)
  | tick (poll : Poll) (now : Nat)
  | use (c : Context)
  | clear
  | load (bytes : List UInt8)

/-- The graph after a connection, which is the old one when there is none. -/
def connectedOr (g : Graph) : Except ConnectionError (Edge × Graph) → Graph
  | .ok (_, g') => g'
  | .error _ => g

/-- The graph after an action; what fails leaves it alone, but for a load. -/
def Action.apply : Action → Graph → Graph
  | create t, g => (g.createNode t).2
  | add t c, g => g.addNode (Node.create t c).1
  | remove id, g => g.removeNode id
  | connect producer output consumer input, g =>
    g.connectedOr (g.connect producer output consumer input)
  | connectNamed producer output consumer input, g =>
    g.connectedOr (g.connectNamed producer output consumer input)
  | disconnect consumer input, g => ((g.disconnect consumer input).map Prod.snd).getD g
  | set id s, g => g.modifyNode id s.onNode
  | step poll dt, g => g.step poll dt
  | tick poll now, g => g.tick poll now
  | use c, g => { g with context := c }
  | clear, g => g.clear
  | load bytes, g => (g.load bytes).2

/-- The graph after some actions. -/
def run (actions : List Action) (g : Graph) : Graph :=
  actions.foldl (fun g a => a.apply g) g

/-- A graph that some actions make of an empty one. -/
def Reachable (g : Graph) : Prop := ∃ name actions, g = run actions (empty name)

/-! ## Connections -/

/-- The ends of an edge that can be put into a graph: two nodes, an output and an input. -/
structure Attachable (g : Graph) (e : Edge) (source target : Node) (o : OutputPort)
    (i : InputPort) : Prop where
  apart : e.producer ≠ e.consumer
  hasSource : g.node? e.producer = some source
  hasOutput : source.ports.outputs[e.address.output.toNat]? = some o
  hasTarget : g.node? e.consumer = some target
  hasInput : target.ports.inputs[e.address.input.toNat]? = some i

/-- The graph with an edge between two ports. -/
def attached (g : Graph) (e : Edge) (source : Node) (o : OutputPort) (i : InputPort) : Graph :=
  g.wire e i.isConnected i.name ⟨source.name, o.name⟩

omit [Formula.Engine] in
theorem orFail_eq_ok {α : Type} {e : ConnectionError} {x : Option α} {a : α} :
    orFail e x = .ok a ↔ x = some a := by
  cases x with
  | none => simp [orFail]
  | some b => simp [orFail]

omit [Formula.Engine] in
theorem slot?_eq_some {index : Nat} {slot : UInt8} : slot? index = some slot ↔ slot.toNat = index := by
  unfold slot?
  by_cases h : index < 256
  · rw [if_pos h, Option.some.injEq]
    constructor
    · rintro rfl
      exact Nat.mod_eq_of_lt h
    · rintro rfl
      exact UInt8.ofNat_toNat
  · rw [if_neg h]
    constructor
    · intro hnone
      exact absurd hnone (by simp)
    · intro hslot
      have := slot.toNat_lt
      omega

/-- A connection succeeds exactly between two ports of different nodes. -/
theorem connect_eq_ok {g g' : Graph} {e : Edge} {producer consumer : NodeId}
    {output input : Nat} :
    g.connect producer output consumer input = .ok (e, g') ↔
      (e.producer = producer ∧ e.consumer = consumer ∧ e.address.output.toNat = output ∧
          e.address.input.toNat = input) ∧
        ∃ source target o i, Attachable g e source target o i ∧ g' = g.attached e source o i := by
  unfold connect
  by_cases hself : producer = consumer
  · rw [if_pos hself]
    constructor
    · intro h
      exact nomatch h
    · rintro ⟨⟨rfl, rfl, -, -⟩, _, _, _, _, h, -⟩
      exact absurd hself h.apart
  rw [if_neg hself]
  simp only [except_bind_eq_ok, orFail_eq_ok, slot?_eq_some]
  constructor
  · rintro ⟨source, hsource, o, ho, target, htarget, inSlot, rfl, outSlot, rfl, i, hi, h⟩
    cases h
    exact ⟨⟨rfl, rfl, rfl, rfl⟩, source, target, o, i, ⟨hself, hsource, ho, htarget, hi⟩, rfl⟩
  · rintro ⟨⟨rfl, rfl, rfl, rfl⟩, source, target, o, i, h, rfl⟩
    exact ⟨source, h.hasSource, o, h.hasOutput, target, h.hasTarget, e.address.input,
      rfl, e.address.output, rfl, i, h.hasInput, rfl⟩

/-- A connection by names is one by numbers. -/
theorem connect_of_connectNamed {g : Graph} {producer consumer : NodeId} {output input : String}
    {r : Edge × Graph} (h : g.connectNamed producer output consumer input = .ok r) :
    ∃ o i, g.connect producer o consumer i = .ok r := by
  unfold connectNamed at h
  simp only [except_bind_eq_ok] at h
  obtain ⟨_, -, o, -, _, -, i, -, h⟩ := h
  exact ⟨o, i, h⟩

/-- Disconnecting takes the source from an input of a node and its edge from the table. -/
theorem disconnect_eq_some {g g' : Graph} {e : Edge} {consumer : NodeId} {input : Nat}
    (h : g.disconnect consumer input = some (e, g')) :
    ∃ slot : UInt8, slot.toNat = input ∧ g.source? consumer input = some e.address ∧
      e.consumer = consumer ∧
        g' = { g.modifyNode consumer (·.detach input) with
          edges := g.edges.remove (consumer, slot) } := by
  unfold disconnect at h
  simp only [Option.bind_eq_bind, Option.bind_eq_some_iff] at h
  obtain ⟨slot, hslot, n, hn, p, hp, h⟩ := h
  simp only [Option.some.injEq, Prod.mk.injEq] at h
  obtain ⟨rfl, rfl⟩ := h
  refine ⟨slot, slot?_eq_some.mp hslot, ?_, rfl, rfl⟩
  exact source?_eq_some.mpr ⟨n, hn, Option.bind_eq_some_iff.mpr hp⟩

/-! ## Turns -/

/-- A turn replaces its node and drops the edges that the node has lost. -/
theorem runNode_eq {g : Graph} {id : NodeId} {n : Node} (hn : g.node? id = some n) (now : Moment) :
    runNode now g id =
      { g.modifyNode id fun _ => (n.takeTurn now (supplyOf g.nodes n)).1 with
        edges := dropEdges id (n.takeTurn now (supplyOf g.nodes n)).2 g.edges } := by
  unfold runNode
  rw [hn]

theorem runNode_of_none {g : Graph} {id : NodeId} (hn : g.node? id = none) (now : Moment) :
    runNode now g id = g := by
  unfold runNode
  rw [hn]

theorem id_of_node? {g : Graph} {id : NodeId} {n : Node} (h : g.node? id = some n) : n.id = id :=
  id_of_nodeIn? h

theorem ids_runNode (now : Moment) (g : Graph) (id : NodeId) : (runNode now g id).ids = g.ids := by
  cases hn : g.node? id with
  | none => rw [runNode_of_none hn]
  | some n =>
      rw [runNode_eq hn]
      exact ids_modifyNode (fun _ _ => (Node.takeTurn_id now _ n).trans (id_of_node? hn)) g

/-- The nodes after a turn, by identity. -/
theorem node?_runNode {g : Graph} {id : NodeId} {n : Node} (hn : g.node? id = some n)
    (now : Moment) (x : NodeId) :
    (runNode now g id).node? x =
      if x = id then some (n.takeTurn now (supplyOf g.nodes n)).1 else g.node? x := by
  rw [runNode_eq hn]
  have hid : ∀ m : Node, m.id = id → ((n.takeTurn now (supplyOf g.nodes n)).1).id = id :=
    fun _ _ => (Node.takeTurn_id now _ n).trans (id_of_node? hn)
  refine (node?_modifyNode hid g x).trans ?_
  by_cases hx : x = id
  · subst hx
    rw [if_pos rfl, if_pos rfl, hn]
    rfl
  · rw [if_neg hx, if_neg hx]

/-! ## Nodes that are added -/

theorem not_mem_ids_removeNode (g : Graph) (id : NodeId) : id ∉ (g.removeNode id).ids := by
  unfold removeNode
  by_cases h : g.contains id = true
  · rw [if_pos h]
    show id ∉ (detachAll _ _).map Node.id
    rw [map_id_detachAll]
    intro hmem
    obtain ⟨n, hn, hid⟩ := List.mem_map.mp hmem
    simp [hid] at hn
  · rw [if_neg h]
    exact fun hmem => h (contains_iff.mpr hmem)

/-- The graph with a node of an identity that it does not have. -/
def inserted (g : Graph) (n : Node) : Graph := { g with nodes := insertByPriority n g.nodes }

theorem addNode_eq (g : Graph) (n : Node) : g.addNode n = (g.removeNode n.id).inserted n := rfl

/-! ## Invariants -/

/-- A property of a graph and of the order of the next turns that every edit and every turn
keeps, in graphs that satisfy `Q`. -/
structure Invariant (Q P : List NodeId → Graph → Prop) : Prop where
  blank : ∀ name c, P [] ⟨name, [], EdgeTable.empty, c⟩
  context : ∀ {turns g} c, Q turns g → P turns g → P turns { g with context := c }
  remove : ∀ {g} id, Q g.ids g → P g.ids g → P (g.removeNode id).ids (g.removeNode id)
  insert : ∀ {g n t}, Q g.ids g → P g.ids g → n.id ∉ g.ids → n.Fresh t →
    P (g.inserted n).ids (g.inserted n)
  attach : ∀ {g e source target o i}, Q g.ids g → P g.ids g →
    Attachable g e source target o i →
      P (g.attached e source o i).ids (g.attached e source o i)
  disconnect : ∀ {g e g' consumer input}, Q g.ids g → P g.ids g →
    g.disconnect consumer input = some (e, g') → P g'.ids g'
  set : ∀ {g} id (s : Setting), Q g.ids g → P g.ids g →
    P (g.modifyNode id s.onNode).ids (g.modifyNode id s.onNode)
  turn : ∀ {g id rest} now, Q (id :: rest) g → P (id :: rest) g →
    P (rest ++ [id]) (runNode now g id)

/-- No condition. -/
abbrev Always : List NodeId → Graph → Prop := fun _ _ => True

/-- An invariant that holds where another one does is an invariant together with it. -/
theorem Invariant.and {Q P : List NodeId → Graph → Prop} (hQ : Invariant Always Q)
    (hP : Invariant Q P) : Invariant Always fun turns g => Q turns g ∧ P turns g where
  blank name c := ⟨hQ.blank name c, hP.blank name c⟩
  context c _ h := ⟨hQ.context c trivial h.1, hP.context c h.1 h.2⟩
  remove id _ h := ⟨hQ.remove id trivial h.1, hP.remove id h.1 h.2⟩
  insert _ h hid hn := ⟨hQ.insert trivial h.1 hid hn, hP.insert h.1 h.2 hid hn⟩
  attach _ h ha := ⟨hQ.attach trivial h.1 ha, hP.attach h.1 h.2 ha⟩
  disconnect _ h hd := ⟨hQ.disconnect trivial h.1 hd, hP.disconnect h.1 h.2 hd⟩
  set id s _ h := ⟨hQ.set id s trivial h.1, hP.set id s h.1 h.2⟩
  turn now _ h := ⟨hQ.turn now trivial h.1, hP.turn now h.1 h.2⟩

/-- Turns taken in two graphs at once: the nodes that have had theirs are behind those that have
not. -/
theorem foldl_turns {R : List NodeId → Graph → Graph → Prop} {s t : Graph → NodeId → Graph}
    (hturn : ∀ {g k id rest}, R (id :: rest) g k → R (rest ++ [id]) (s g id) (t k id))
    {done todo : List NodeId} {g k : Graph} (h : R (done ++ todo) g k) :
    R (todo ++ done) (done.foldl s g) (done.foldl t k) := by
  induction done generalizing todo g k with
  | nil =>
      rw [List.append_nil]
      exact h
  | cons id done ih =>
      have hnext : R (done ++ (todo ++ [id])) (s g id) (t k id) := by
        rw [← List.append_assoc]
        exact hturn h
      have hrest := ih hnext
      rw [List.append_assoc] at hrest
      exact hrest

theorem Invariant.ids_turns (now : Moment) (done : List NodeId) (g : Graph) :
    (done.foldl (runNode now) g).ids = g.ids := by
  induction done generalizing g with
  | nil => rfl
  | cons id done ih => rw [List.foldl_cons, ih, ids_runNode]

/-! ## Invariants of the nodes that come in -/

/-- What every edit and every turn keep, in graphs that satisfy `Q`, as long as the nodes that are
added have a property. -/
structure Upkeep (New : Node → Prop) (Q P : List NodeId → Graph → Prop) : Prop where
  blank : ∀ name c, P [] ⟨name, [], EdgeTable.empty, c⟩
  context : ∀ {turns g} c, Q turns g → P turns g → P turns { g with context := c }
  remove : ∀ {g} id, Q g.ids g → P g.ids g → P (g.removeNode id).ids (g.removeNode id)
  insert : ∀ {g n}, Q g.ids g → P g.ids g → n.id ∉ g.ids → New n →
    P (g.inserted n).ids (g.inserted n)
  attach : ∀ {g e source target o i}, Q g.ids g → P g.ids g →
    Attachable g e source target o i →
      P (g.attached e source o i).ids (g.attached e source o i)
  disconnect : ∀ {g e g' consumer input}, Q g.ids g → P g.ids g →
    g.disconnect consumer input = some (e, g') → P g'.ids g'
  set : ∀ {g} id (s : Setting), Q g.ids g → P g.ids g →
    P (g.modifyNode id s.onNode).ids (g.modifyNode id s.onNode)
  turn : ∀ {g id rest} now, Q (id :: rest) g → P (id :: rest) g →
    P (rest ++ [id]) (runNode now g id)

/-- An invariant asks of the nodes that are added only that they are fresh. -/
theorem Invariant.upkeep {Q P : List NodeId → Graph → Prop} (hP : Invariant Q P) :
    Upkeep (fun n => ∃ t, n.Fresh t) Q P where
  blank := hP.blank
  context := hP.context
  remove := hP.remove
  insert hq h hid := fun ⟨_, hn⟩ => hP.insert hq h hid hn
  attach := hP.attach
  disconnect := hP.disconnect
  set := hP.set
  turn := hP.turn

/-- The nodes that an action brings into a graph. -/
def Action.Brings (a : Action) (g : Graph) (n : Node) : Prop :=
  match a with
  | create t => n = { (Node.create t g.context).1 with id := (g.createNode t).1 }
  | add t c => n = (Node.create t c).1
  | load bytes => ∃ s b, readScene g.clear.context (Bytes.Buffer.ofBytes bytes) = .ok s b ∧
      n ∈ s.nodes
  | _ => False

/-- Whatever an action brings in is fresh. -/
theorem Action.fresh_of_brings {a : Action} {g : Graph} {n : Node} (h : a.Brings g n) :
    ∃ t, n.Fresh t := by
  cases a with
  | create t =>
      cases h
      exact ⟨t, Node.fresh_create t g.context _⟩
  | add t c =>
      cases h
      exact ⟨t, Node.fresh_create t c _⟩
  | load bytes =>
      obtain ⟨s, b, hread, hn⟩ := h
      have hfresh : Loaded.Fresh s := yields_readScene g.clear.context _ _ _ hread
      exact hfresh n hn
  | _ => exact h.elim

namespace Upkeep

variable {New : Node → Prop} {P Q : List NodeId → Graph → Prop}

/-- The same of fewer nodes. -/
theorem mono {New' : Node → Prop} (hP : Upkeep New Q P) (hnew : ∀ n, New' n → New n) :
    Upkeep New' Q P where
  blank := hP.blank
  context := hP.context
  remove := hP.remove
  insert hq h hid hn := hP.insert hq h hid (hnew _ hn)
  attach := hP.attach
  disconnect := hP.disconnect
  set := hP.set
  turn := hP.turn

/-- What is kept where something else is, is kept together with it. -/
theorem and (hQ : Upkeep New Always Q) (hP : Upkeep New Q P) :
    Upkeep New Always fun turns g => Q turns g ∧ P turns g where
  blank name c := ⟨hQ.blank name c, hP.blank name c⟩
  context c _ h := ⟨hQ.context c trivial h.1, hP.context c h.1 h.2⟩
  remove id _ h := ⟨hQ.remove id trivial h.1, hP.remove id h.1 h.2⟩
  insert _ h hid hn := ⟨hQ.insert trivial h.1 hid hn, hP.insert h.1 h.2 hid hn⟩
  attach _ h ha := ⟨hQ.attach trivial h.1 ha, hP.attach h.1 h.2 ha⟩
  disconnect _ h hd := ⟨hQ.disconnect trivial h.1 hd, hP.disconnect h.1 h.2 hd⟩
  set id s _ h := ⟨hQ.set id s trivial h.1, hP.set id s h.1 h.2⟩
  turn now _ h := ⟨hQ.turn now trivial h.1, hP.turn now h.1 h.2⟩

variable (hP : Upkeep New Always P)
include hP

theorem turns (now : Moment) {done todo : List NodeId} {g : Graph} (h : P (done ++ todo) g) :
    P (todo ++ done) (done.foldl (runNode now) g) :=
  foldl_turns (R := fun turns g _ => P turns g) (t := runNode now) (k := g)
    (fun h => hP.turn now trivial h) h

theorem evaluate (poll : Poll) {g : Graph} (h : P g.ids g) :
    P (g.evaluate poll).ids (g.evaluate poll) := by
  have hids : (g.evaluate poll).ids = g.ids := Invariant.ids_turns (g.moment poll) g.ids g
  rw [hids]
  have hturns := hP.turns (g.moment poll) (by simpa using h : P (g.ids ++ []) g)
  exact hturns

/-- A frame, with whatever reading of the clock. -/
theorem frame (poll : Poll) (f : Clock → Clock) {g : Graph} (h : P g.ids g) :
    P ((g.withClock f).evaluate poll).ids ((g.withClock f).evaluate poll) :=
  hP.evaluate poll (hP.context _ trivial h)

theorem add {g : Graph} {n : Node} (h : P g.ids g) (hn : New n) :
    P (g.addNode n).ids (g.addNode n) := by
  rw [addNode_eq]
  exact hP.insert trivial (hP.remove n.id trivial h) (not_mem_ids_removeNode g n.id) hn

theorem connect {g g' : Graph} {e : Edge} {producer consumer : NodeId} {output input : Nat}
    (h : P g.ids g) (hc : g.connect producer output consumer input = .ok (e, g')) :
    P g'.ids g' := by
  obtain ⟨-, source, target, o, i, ha, rfl⟩ := connect_eq_ok.mp hc
  exact hP.attach trivial h ha

omit hP in
theorem connectedOr {g : Graph} {r : Except ConnectionError (Edge × Graph)} (h : P g.ids g)
    (hr : ∀ e g', r = .ok (e, g') → P g'.ids g') :
    P (g.connectedOr r).ids (g.connectedOr r) := by
  cases r with
  | ok r => exact hr r.1 r.2 rfl
  | error _ => exact h

theorem addAll {nodes : List Node} (hn : ∀ n ∈ nodes, New n) {g : Graph} (h : P g.ids g) :
    P (nodes.foldl addNode g).ids (nodes.foldl addNode g) := by
  induction nodes generalizing g with
  | nil => exact h
  | cons n nodes ih =>
      have hrest : ∀ m ∈ nodes, New m := fun m hm => hn m (List.mem_cons_of_mem n hm)
      exact ih hrest (hP.add h (hn n List.mem_cons_self))

theorem reconnectAll (edges : List Edge) {g : Graph} (h : P g.ids g) :
    P (edges.foldl reconnect g).ids (edges.foldl reconnect g) := by
  induction edges generalizing g with
  | nil => exact h
  | cons e edges ih =>
      refine ih ?_
      unfold reconnect
      split
      · next hc => exact hP.connect h hc
      · exact h

/-- After a load the property holds whatever the graph was before, and whether or not the bytes
have been accepted. -/
theorem load (g : Graph) {bytes : List UInt8} (hnew : ∀ n, (Action.load bytes).Brings g n → New n) :
    P (g.load bytes).2.ids (g.load bytes).2 := by
  have hclear : P g.clear.ids g.clear := hP.blank g.name g.context.reset
  cases hread : readScene g.clear.context (Bytes.Buffer.ofBytes bytes) with
  | error e b =>
      rw [load_of_error hread]
      exact hclear
  | ok s b =>
      rw [load_of_ok hread]
      have hnodes : ∀ n ∈ s.nodes, New n := fun n hn => hnew n ⟨s, b, hread, hn⟩
      exact hP.reconnectAll s.edges (hP.addAll hnodes (hP.context s.context trivial hclear))

theorem apply {a : Action} {g : Graph} (hnew : ∀ n, a.Brings g n → New n) (h : P g.ids g) :
    P (a.apply g).ids (a.apply g) := by
  cases a with
  | create t => exact hP.add (hP.context _ trivial h) (hnew _ rfl)
  | add t c => exact hP.add h (hnew _ rfl)
  | remove id => exact hP.remove id trivial h
  | connect producer output consumer input =>
      exact connectedOr h fun e g' hc => hP.connect h hc
  | connectNamed producer output consumer input =>
      refine connectedOr h fun e g' hc => ?_
      obtain ⟨o, i, hc⟩ := connect_of_connectNamed hc
      exact hP.connect h hc
  | disconnect consumer input =>
      unfold Action.apply
      cases hd : g.disconnect consumer input with
      | none => simpa [hd] using h
      | some r =>
          obtain ⟨e, g'⟩ := r
          simpa [hd] using hP.disconnect trivial h hd
  | set id s => exact hP.set id s trivial h
  | step poll dt => exact hP.frame poll _ h
  | tick poll now => exact hP.frame poll _ h
  | use c => exact hP.context c trivial h
  | clear => exact hP.blank g.name g.context.reset
  | load bytes => exact hP.load g hnew

end Upkeep

/-! ## Invariants of all graphs -/

namespace Invariant

variable {P : List NodeId → Graph → Prop} (hP : Invariant Always P)
include hP

theorem turns (now : Moment) {done todo : List NodeId} {g : Graph} (h : P (done ++ todo) g) :
    P (todo ++ done) (done.foldl (runNode now) g) :=
  hP.upkeep.turns now h

/-- A frame, with whatever reading of the clock. -/
theorem frame (poll : Poll) (f : Clock → Clock) {g : Graph} (h : P g.ids g) :
    P ((g.withClock f).evaluate poll).ids ((g.withClock f).evaluate poll) :=
  hP.upkeep.frame poll f h

/-- After a load the invariant holds whatever the graph was before, and whether or not the bytes
have been accepted. -/
theorem load (g : Graph) (bytes : List UInt8) : P (g.load bytes).2.ids (g.load bytes).2 :=
  hP.upkeep.load g fun _ => Action.fresh_of_brings

theorem apply (a : Action) {g : Graph} (h : P g.ids g) : P (a.apply g).ids (a.apply g) :=
  hP.upkeep.apply (fun _ => Action.fresh_of_brings) h

theorem run (actions : List Action) {g : Graph} (h : P g.ids g) :
    P (g.run actions).ids (g.run actions) := by
  induction actions generalizing g with
  | nil => exact h
  | cons a actions ih => exact ih (hP.apply a h)

/-- An invariant holds of every reachable graph. -/
theorem of_reachable {g : Graph} (h : g.Reachable) : P g.ids g := by
  obtain ⟨name, actions, rfl⟩ := h
  exact hP.run actions (hP.blank name Context.new)

end Invariant

end Graph

end Patchbay
