import Mathlib.Logic.Relation
import Patchbay.Proofs.Freshness
/-!
What becomes of a single node.

A graph changes a node in four ways only: it takes a source from an input,
gives one to it, sets a field, or gives the node its turn.  Whatever the
actions on a graph are, a node of the graph they lead to was brought in by
one of them and has evolved since by such steps.  So a property of nodes
that each step keeps (`Node.Lasting`) holds of all nodes of a graph when it
holds of those that are brought in, also in the middle of a frame.
-/

namespace Patchbay

/-! ## Steps of a node -/

variable [Formula.Engine]

/-- A change of the wiring of a node. -/
inductive Node.Rewire : Node → Node → Prop
  | detach {n : Node} (i : Nat) : Rewire n (n.detach i)
  | attach {n : Node} (e : Edge) (source : Node) (o : OutputPort) (i : InputPort) :
      Rewire n (Graph.attachedNode e source o i n)

/-- A change of a node between turns. -/
inductive Node.Edit : Node → Node → Prop
  | detach {n : Node} (i : Nat) : Edit n (n.detach i)
  | attach {n : Node} (e : Edge) (source : Node) (o : OutputPort) (i : InputPort) :
      Edit n (Graph.attachedNode e source o i n)
  | set {n : Node} (s : Setting) : Edit n (s.onNode n)

/-- A change of a node.  Turns are given to nodes that have their outputs, and their sources at
the inputs that these name. -/
inductive Node.Step : Node → Node → Prop
  | edit {n m : Node} : n.Edit m → Step n m
  | turn {n : Node} (now : Moment) (supply : Supply) : n.ports.Indexed → n.Sound →
      Step n (n.takeTurn now supply).1

namespace Node

/-- The second node is the first one after some edits. -/
def Edited : Node → Node → Prop := Relation.ReflTransGen Edit

/-- The second node is the first one after some edits and turns. -/
def Evolves : Node → Node → Prop := Relation.ReflTransGen Step

theorem Rewire.edit {n m : Node} (h : n.Rewire m) : n.Edit m := by
  cases h with
  | detach i => exact .detach i
  | attach e source o i => exact .attach e source o i

theorem Edited.evolves {n m : Node} (h : n.Edited m) : n.Evolves m :=
  Relation.ReflTransGen.mono (fun _ _ => Step.edit) _ _ h

theorem Edit.id {n m : Node} (h : n.Edit m) : m.id = n.id := by
  cases h with
  | detach i => exact n.id_detach i
  | attach e source o i => exact Graph.id_attachedNode e source o i n
  | set s => exact s.id_onNode n

theorem Step.id {n m : Node} (h : n.Step m) : m.id = n.id := by
  cases h with
  | edit h => exact h.id
  | turn now supply _ _ => exact takeTurn_id now supply n

theorem Evolves.id {n m : Node} (h : n.Evolves m) : m.id = n.id := by
  induction h with
  | refl => rfl
  | tail _ hstep ih => exact hstep.id.trans ih

/-- A property of a node that edits keep. -/
structure Durable (P : Node → Prop) : Prop where
  detach : ∀ {n} i, P n → P (n.detach i)
  attach : ∀ {n} e source o i, P n → P (Graph.attachedNode e source o i n)
  set : ∀ {n} (s : Setting), P n → P (s.onNode n)

/-- A property of a node that edits and turns keep. -/
structure Lasting (P : Node → Prop) : Prop extends Durable P where
  turn : ∀ {n} now supply, n.ports.Indexed → n.Sound → P n → P (n.takeTurn now supply).1

section Properties
variable {P : Node → Prop} {n m : Node}

theorem Durable.edit (hP : Durable P) (h : n.Edit m) (hn : P n) : P m := by
  cases h with
  | detach i => exact hP.detach i hn
  | attach e source o i => exact hP.attach e source o i hn
  | set s => exact hP.set s hn

theorem Durable.edited (hP : Durable P) (h : n.Edited m) (hn : P n) : P m := by
  induction h with
  | refl => exact hn
  | tail _ hedit ih => exact hP.edit hedit ih

theorem Lasting.evolves (hP : Lasting P) (h : n.Evolves m) (hn : P n) : P m := by
  induction h with
  | refl => exact hn
  | tail _ hstep ih =>
      cases hstep with
      | edit h => exact hP.edit h ih
      | turn now supply hports hsound => exact hP.turn now supply hports hsound ih

/-- Edits change the behavior by what it is told of the wiring and by its fields, and leave the
outputs. -/
theorem durable_of_behavior {B : Behavior → Option Value → Prop}
    (hconnected : ∀ {b out} input p, B b out → B (b.connected input p) out)
    (hdisconnected : ∀ {b out} input, B b out → B (b.disconnected input) out)
    (hset : ∀ {b out} (s : Setting), B b out → B (s.onBehavior b) out) :
    Durable fun n => B n.behavior n.ports.firstValue? where
  detach {n} i h := by
    rw [firstValue?_congr (n.outputs_detach i)]
    unfold detach
    cases n.ports.inputs[i]? with
    | none => exact h
    | some p => exact hdisconnected p.name h
  attach {n} e source o i h := by
    rw [firstValue?_congr (Graph.outputs_attachedNode n), Graph.attachedNode_eq]
    refine hconnected _ _ ?_
    split
    · exact hdisconnected _ h
    · exact h
  set {n} s h := by
    rcases s.onNode_cases n with ⟨_, _, hs⟩ | ⟨_, hs⟩ | hs
    · rw [hs]
      exact h
    · rw [hs]
      exact h
    · rw [hs]
      exact hset s h

end Properties

end Node

/-! ## The first output after a turn -/

namespace Node

variable {now : Moment} {supply : Supply} {n : Node}

/-- A turn without posts leaves the values on the outputs. -/
theorem firstValue?_of_silent (hn : n.ports.Indexed) (hposts : (n.outcome now supply).2 = []) :
    (n.takeTurn now supply).1.ports.firstValue? = n.ports.firstValue? := by
  rw [takeTurn_node, hposts]
  exact firstValue?_heldTurn hn

/-- A turn that publishes a value has it on the output. -/
theorem firstValue?_of_publish (hn : n.ports.Indexed) {c : Cell} (hc : n.ports.cell? 0 = some c)
    {v : Value} (hposts : (n.outcome now supply).2 = [.publish 0 v]) :
    ∃ o, (n.takeTurn now supply).1.ports.firstValue? = some o ∧ o.Agrees v := by
  have hheld := cell?_heldTurn now supply hn 0
  rw [hc] at hheld
  rw [takeTurn_node, hposts]
  exact Directory.firstValue?_publish hheld v

end Node

namespace Graph

/-! ## Steps of a graph -/

/-- Every node of the second graph was in the first one or is among the new ones, and has since
changed by steps of the given kind. -/
def Descends (S : Node → Node → Prop) (New : Node → Prop) (g g' : Graph) : Prop :=
  ∀ x m, g'.node? x = some m →
    ∃ n, Relation.ReflTransGen S n m ∧ (g.node? x = some n ∨ New n)

section Descent
variable {S : Node → Node → Prop} {New : Node → Prop} {g g' g'' : Graph}

theorem Descends.refl (g : Graph) : Descends S New g g :=
  fun _ m hm => ⟨m, .refl, .inl hm⟩

theorem Descends.of_nodes (h : ∀ x, g'.node? x = g.node? x) : Descends S New g g' :=
  fun x m hm => ⟨m, .refl, .inl ((h x).symm.trans hm)⟩

theorem Descends.trans (h : Descends S New g g') (h' : Descends S New g' g'') :
    Descends S New g g'' := by
  intro x k hk
  obtain ⟨m, hmk, hm | hm⟩ := h' x k hk
  · obtain ⟨n, hnm, hn⟩ := h x m hm
    exact ⟨n, hnm.trans hmk, hn⟩
  · exact ⟨m, hmk, Or.inr hm⟩

/-- Steps of one kind may be taken for those of a wider one. -/
theorem Descends.mono {T : Node → Node → Prop} (hST : ∀ {n m}, S n m → T n m)
    (h : Descends S New g g') : Descends T New g g' := by
  intro x m hm
  obtain ⟨n, hnm, hn⟩ := h x m hm
  exact ⟨n, Relation.ReflTransGen.mono (fun _ _ => hST) _ _ hnm, hn⟩

theorem Descends.evolves (h : Descends Node.Edit New g g') : Descends Node.Step New g g' :=
  h.mono .edit

/-- A graph in which one node has been changed. -/
theorem Descends.change {id : NodeId} {f : Node → Node}
    (hnode : ∀ x, g'.node? x = if x = id then (g.node? x).map f else g.node? x)
    (hf : ∀ n, S n (f n)) : Descends S New g g' := by
  intro x m hm
  rw [hnode] at hm
  split at hm
  · obtain ⟨n, hn, rfl⟩ := Option.map_eq_some_iff.mp hm
    exact ⟨n, .single (hf n), Or.inl hn⟩
  · exact ⟨m, .refl, Or.inl hm⟩

/-- A property that every step keeps, of the nodes of a graph and of the new ones. -/
theorem Descends.forall_node (h : Descends S New g g') {P : Node → Prop}
    (hS : ∀ {n m}, Relation.ReflTransGen S n m → P n → P m)
    (hg : ∀ x n, g.node? x = some n → P n) (hnew : ∀ n, New n → P n) :
    ∀ x n, g'.node? x = some n → P n := by
  intro x m hm
  obtain ⟨n, hnm, hn | hn⟩ := h x m hm
  · exact hS hnm (hg x n hn)
  · exact hS hnm (hnew n hn)

end Descent

section Rewiring
variable {New : Node → Prop}

theorem descends_remove (g : Graph) (id : NodeId) :
    Descends Node.Rewire New g (g.removeNode id) := by
  intro x m hm
  obtain ⟨n, hn, hnm⟩ := related_removeNode (R := Relation.ReflTransGen Node.Rewire)
    (fun _ => .refl) (fun h h' => h.trans h') (fun _ i => .single (.detach i)) hm
  exact ⟨n, hnm, Or.inl hn⟩

theorem descends_add (g : Graph) {n : Node} (hn : New n) :
    Descends Node.Rewire New g (g.addNode n) := by
  refine (descends_remove g n.id).trans fun x m hm => ?_
  rw [addNode_eq, node?_inserted (not_mem_ids_removeNode g n.id)] at hm
  split at hm
  · cases hm
    exact ⟨n, .refl, Or.inr hn⟩
  · exact ⟨m, .refl, Or.inl hm⟩

theorem descends_addAll {nodes : List Node} (hnew : ∀ n ∈ nodes, New n) (g : Graph) :
    Descends Node.Rewire New g (nodes.foldl addNode g) := by
  induction nodes generalizing g with
  | nil => exact Descends.refl g
  | cons n nodes ih =>
      have hrest : ∀ m ∈ nodes, New m := fun m hm => hnew m (List.mem_cons_of_mem n hm)
      exact (descends_add g (hnew n List.mem_cons_self)).trans (ih hrest _)

theorem descends_connect {g g' : Graph} {e : Edge} {producer consumer : NodeId}
    {output input : Nat} (h : g.connect producer output consumer input = .ok (e, g')) :
    Descends Node.Rewire New g g' := by
  obtain ⟨-, source, target, o, i, -, rfl⟩ := connect_eq_ok.mp h
  exact Descends.change node?_attached fun _ => .attach e source o i

theorem descends_connectedOr {g : Graph} {r : Except ConnectionError (Edge × Graph)}
    (h : ∀ e g', r = .ok (e, g') → Descends Node.Rewire New g g') :
    Descends Node.Rewire New g (g.connectedOr r) := by
  cases r with
  | ok r => exact h r.1 r.2 rfl
  | error _ => exact Descends.refl g

theorem descends_reconnectAll (edges : List Edge) (g : Graph) :
    Descends Node.Rewire New g (edges.foldl reconnect g) := by
  induction edges generalizing g with
  | nil => exact Descends.refl g
  | cons e edges ih =>
      refine Descends.trans ?_ (ih _)
      unfold reconnect
      split
      · next h => exact descends_connect h
      · exact Descends.refl g

theorem descends_disconnect {g g' : Graph} {e : Edge} {consumer : NodeId} {input : Nat}
    (h : g.disconnect consumer input = some (e, g')) : Descends Node.Rewire New g g' := by
  obtain ⟨slot, rfl, -, -, rfl⟩ := disconnect_eq_some h
  exact Descends.change (node?_detached g consumer slot) fun _ => .detach _

end Rewiring

/-! ## Actions -/

/-- What holds of the behaviors that fields can make holds of those that a load brings in. -/
theorem Action.behavior_of_load {Q : Behavior → Prop} (hget : ∀ t, (Behavior.get t).Yields Q)
    {bytes : List UInt8} {g : Graph} {n : Node} (h : (load bytes).Brings g n) : Q n.behavior := by
  obtain ⟨s, b, hread, hn⟩ := h
  exact behavior_of_readScene hget _ _ _ _ hread n hn

/-- What holds of the behaviors that types start with and that fields can make holds of the
behaviors of new nodes. -/
theorem Action.behavior_of_brings {Q : Behavior → Prop} (hinitial : ∀ t, Q (Behavior.initial t))
    (hget : ∀ t, (Behavior.get t).Yields Q) {a : Action} {g : Graph} {n : Node}
    (h : a.Brings g n) : Q n.behavior := by
  cases a with
  | create t =>
      cases h
      exact hinitial t
  | add t c =>
      cases h
      exact hinitial t
  | load bytes => exact behavior_of_load hget h
  | _ => exact h.elim

/-- Whether an action runs a frame. -/
def Action.isFrame : Action → Bool
  | step _ _ | tick _ _ => true
  | _ => false

/-- Whether an action loads a scene. -/
def Action.isLoad : Action → Bool
  | load _ => true
  | _ => false

theorem descends_load (g : Graph) (bytes : List UInt8) :
    Descends Node.Rewire ((Action.load bytes).Brings g) g (g.load bytes).2 := by
  have hclear : Descends Node.Rewire ((Action.load bytes).Brings g) g g.clear := by
    intro x m hm
    exact nomatch hm
  refine hclear.trans ?_
  cases hread : readScene g.clear.context (Bytes.Buffer.ofBytes bytes) with
  | error e b =>
      rw [load_of_error hread]
      exact Descends.refl g.clear
  | ok s b =>
      rw [load_of_ok hread]
      have hadd : Descends Node.Rewire ((Action.load bytes).Brings g) g.clear
          (s.nodes.foldl addNode { g.clear with context := s.context }) :=
        (Descends.of_nodes fun _ => rfl).trans (descends_addAll (fun n hn => ⟨s, b, hread, hn⟩) _)
      exact hadd.trans (descends_reconnectAll s.edges _)

/-- Whether an action sets a field of a node. -/
def Action.isSetting : Action → Bool
  | set _ _ => true
  | _ => false

/-- What an action makes of the nodes that neither runs a frame nor sets a field. -/
theorem descends_wiring (g : Graph) {a : Action} (hframe : a.isFrame = false)
    (hset : a.isSetting = false) : Descends Node.Rewire (a.Brings g) g (a.apply g) := by
  cases a with
  | create t => exact descends_add _ rfl
  | add t c => exact descends_add g rfl
  | remove id => exact descends_remove g id
  | connect producer output consumer input =>
      exact descends_connectedOr fun e g' h => descends_connect h
  | connectNamed producer output consumer input =>
      refine descends_connectedOr fun e g' h => ?_
      obtain ⟨o, i, h⟩ := connect_of_connectNamed h
      exact descends_connect h
  | disconnect consumer input =>
      unfold Action.apply
      cases hd : g.disconnect consumer input with
      | none => simpa [hd] using Descends.refl g
      | some r =>
          obtain ⟨e, g'⟩ := r
          simpa [hd] using descends_disconnect hd
  | set id s => exact nomatch hset
  | step poll dt => exact nomatch hframe
  | tick poll now => exact nomatch hframe
  | use c => exact Descends.of_nodes fun _ => rfl
  | clear =>
      intro x m hm
      exact nomatch hm
  | load bytes => exact descends_load g bytes

/-- What an action that runs no frame makes of the nodes. -/
theorem descends_apply (g : Graph) {a : Action} (ha : a.isFrame = false) :
    Descends Node.Edit (a.Brings g) g (a.apply g) := by
  cases a with
  | set id s => exact Descends.change (node?_set g id s) fun _ => .set s
  | _ => exact (descends_wiring g ha rfl).mono Node.Rewire.edit

/-! ## Frames -/

theorem descends_turn {New : Node → Prop} {turns : List NodeId} {g : Graph}
    (h : Standing turns g) (now : Moment) (id : NodeId) :
    Descends Node.Step New g (runNode now g id) := by
  intro x m hm
  cases hn : g.node? id with
  | none =>
      rw [runNode_of_none hn] at hm
      exact ⟨m, .refl, Or.inl hm⟩
  | some n =>
      rw [node?_runNode hn] at hm
      split at hm
      · next hx =>
          subst hx
          cases hm
          have hports := h.1.ports_indexed hn
          have hsound := h.2.sound n (mem_of_nodeIn? hn)
          exact ⟨n, .single (.turn now _ hports hsound), Or.inl hn⟩
      · exact ⟨m, .refl, Or.inl hm⟩

theorem descends_turns {New : Node → Prop} (now : Moment) {done todo : List NodeId} {g : Graph}
    (h : Standing (done ++ todo) g) :
    Descends Node.Step New g (done.foldl (runNode now) g) := by
  induction done generalizing todo g with
  | nil => exact Descends.refl g
  | cons id done ih =>
      have hnext : Standing (done ++ (todo ++ [id])) (runNode now g id) := by
        rw [← List.append_assoc]
        exact standing_invariant.turn now trivial h
      exact (descends_turn h now id).trans (ih hnext)

theorem Standing.withClock {turns : List NodeId} {g : Graph} (h : Standing turns g)
    (f : Clock → Clock) : Standing turns (g.withClock f) :=
  standing_invariant.context _ trivial h

theorem descends_inFrame {New : Node → Prop} {g : Graph} (poll : Poll) (f : Clock → Clock)
    {done todo : List NodeId} (hids : g.ids = done ++ todo) (h : Standing g.ids g) :
    Descends Node.Step New g (g.inFrame poll f done) := by
  have hstart : Standing (done ++ todo) (g.withClock f) := by
    rw [← hids]
    exact h.withClock f
  exact (Descends.of_nodes fun _ => rfl).trans (descends_turns _ hstart)

theorem descends_frame {New : Node → Prop} {g : Graph} (poll : Poll) (f : Clock → Clock)
    (h : Standing g.ids g) : Descends Node.Step New g ((g.withClock f).evaluate poll) :=
  descends_inFrame poll f (List.append_nil g.ids).symm h

/-- What an action makes of the nodes. -/
theorem evolves_apply {g : Graph} (h : Standing g.ids g) (a : Action) :
    Descends Node.Step (a.Brings g) g (a.apply g) := by
  cases hframe : a.isFrame with
  | false => exact (descends_apply g hframe).evolves
  | true =>
      cases a with
      | step poll dt => exact descends_frame poll _ h
      | tick poll now => exact descends_frame poll _ h
      | _ => exact nomatch hframe

/-! ## Properties of all nodes -/

/-- All nodes have a property. -/
def Throughout (P : Node → Prop) (g : Graph) : Prop := ∀ x n, g.node? x = some n → P n

/-- After a load all nodes are new ones, wired. -/
theorem throughout_load {P : Node → Prop} (hP : Node.Durable P) (g : Graph) {bytes : List UInt8}
    (hnew : ∀ n, (Action.load bytes).Brings g n → P n) : (g.load bytes).2.Throughout P :=
  ((descends_load g.clear bytes).mono Node.Rewire.edit).forall_node hP.edited
    (fun _ _ hn => nomatch hn) hnew

theorem Reachable.run {g : Graph} (h : g.Reachable) (actions : List Action) :
    (g.run actions).Reachable := by
  obtain ⟨name, before, rfl⟩ := h
  exact ⟨name, before ++ actions, (List.foldl_append).symm⟩

theorem Reachable.apply {g : Graph} (h : g.Reachable) (a : Action) : (a.apply g).Reachable :=
  h.run [a]

theorem Reachable.standing {g : Graph} (h : g.Reachable) : Standing g.ids g :=
  standing_invariant.of_reachable h

/-- Nodes of such a graph have their sources at the inputs that these name, and their outputs. -/
theorem Standing.steady {turns : List NodeId} {g : Graph} (h : Standing turns g) {x : NodeId}
    {n : Node} (hn : g.node? x = some n) : n.ports.Indexed ∧ n.Sound :=
  ⟨h.1.ports_indexed hn, h.2.sound n (mem_of_nodeIn? hn)⟩

/-- A property of all nodes is kept when edits and turns keep it of each of them; edges are given
to inputs that are there, and turns to nodes that `Q` keeps in a fit state. -/
theorem throughout_upkeep {Q : List NodeId → Graph → Prop} {P : Node → Prop}
    (hsteady : ∀ {turns g x n}, Q turns g → g.node? x = some n → n.ports.Indexed ∧ n.Sound)
    (hdetach : ∀ n i, P n → P (n.detach i))
    (hattach : ∀ n e source o i, n.ports.inputs[e.address.input.toNat]? = some i → P n →
      P (attachedNode e source o i n))
    (hset : ∀ n (s : Setting), P n → P (s.onNode n))
    (hturn : ∀ n now supply, n.ports.Indexed → n.Sound → P n → P (n.takeTurn now supply).1) :
    Upkeep P Q fun _ g => g.Throughout P where
  blank _ _ := by
    intro x n hn
    exact nomatch hn
  context _ _ h := h
  remove id _ h := by
    intro x m hm
    obtain ⟨n, hn, hnm⟩ := related_removeNode (R := fun n m => P n → P m) (fun _ hp => hp)
      (fun h h' hp => h' (h hp)) hdetach hm
    exact hnm (h x n hn)
  insert _ h hid hn := by
    intro x m hm
    rw [node?_inserted hid] at hm
    split at hm
    · cases hm
      exact hn
    · exact h x m hm
  attach {g e source target o i} _ h ha := by
    intro x m hm
    rw [node?_attached] at hm
    split at hm
    · next hx =>
        rw [hx, ha.hasTarget] at hm
        cases hm
        exact hattach target e source o i ha.hasInput (h _ target ha.hasTarget)
    · exact h x m hm
  disconnect {g e g' consumer input} _ h hd := by
    obtain ⟨slot, rfl, -, -, rfl⟩ := disconnect_eq_some hd
    intro x m hm
    have hdetached := node?_detached g consumer slot x
    replace hm := hdetached.symm.trans hm
    split at hm
    · obtain ⟨n, hn, rfl⟩ := Option.map_eq_some_iff.mp hm
      exact hdetach n _ (h x n hn)
    · exact h x m hm
  set {g} id s _ h := by
    intro x m hm
    rw [node?_set] at hm
    split at hm
    · obtain ⟨n, hn, rfl⟩ := Option.map_eq_some_iff.mp hm
      exact hset n s (h x n hn)
    · exact h x m hm
  turn {g id rest} now hg h := by
    cases hn : g.node? id with
    | none =>
        rw [runNode_of_none hn]
        exact h
    | some n =>
        obtain ⟨hports, hsound⟩ := hsteady hg hn
        intro x m hm
        rw [node?_runNode hn] at hm
        split at hm
        · cases hm
          exact hturn n now _ hports hsound (h id n hn)
        · exact h x m hm

section Lasting
variable {P : Node → Prop} (hP : Node.Lasting P)
include hP

theorem Throughout.apply {g : Graph} (h : g.Reachable) {a : Action} (hg : g.Throughout P)
    (hnew : ∀ n, a.Brings g n → P n) : (a.apply g).Throughout P :=
  (evolves_apply h.standing a).forall_node hP.evolves hg hnew

theorem Throughout.inFrame {g : Graph} (h : g.Reachable) (hg : g.Throughout P) (poll : Poll)
    (f : Clock → Clock) {done todo : List NodeId} (hids : g.ids = done ++ todo) :
    (g.inFrame poll f done).Throughout P := by
  have hdescends : Descends Node.Step (fun _ => False) g (g.inFrame poll f done) :=
    descends_inFrame poll f hids h.standing
  exact hdescends.forall_node hP.evolves hg fun _ hn => hn.elim

theorem Throughout.run {actions : List Action}
    (hnew : ∀ a ∈ actions, ∀ g n, a.Brings g n → P n) {g : Graph} (h : g.Reachable)
    (hg : g.Throughout P) : (g.run actions).Throughout P := by
  induction actions generalizing g with
  | nil => exact hg
  | cons a actions ih =>
      have hrest : ∀ b ∈ actions, ∀ g n, b.Brings g n → P n :=
        fun b hb => hnew b (List.mem_cons_of_mem a hb)
      exact ih hrest (h.apply a) (hg.apply hP h (hnew a List.mem_cons_self g))

/-- A lasting property of whatever can be brought in is one of all nodes. -/
theorem Reachable.throughout (hnew : ∀ (a : Action) g n, a.Brings g n → P n) {g : Graph}
    (h : g.Reachable) : g.Throughout P := by
  obtain ⟨name, actions, rfl⟩ := h
  refine Throughout.run hP (fun a _ => hnew a) ⟨name, [], rfl⟩ ?_
  intro x n hn
  exact nomatch hn

end Lasting

end Graph

end Patchbay
