import Patchbay.Formula.Basic
import Patchbay.Proofs.Encounters
import Patchbay.Proofs.Gating
import Patchbay.Proofs.Loading
/-!
Identities that are left free for ports.

Behind the identity of a new node the counter leaves one number free for each
port that the node has at creation.  As long as the nodes come from the
counter, these reservations do not overlap, whatever is done to the nodes
afterwards, because an identity, a type and the counter itself are changed by
no edit and no frame (`Counted.reserved`).

The ports of a function, a list or a path may become more than those at
creation, and nothing is reserved for the further ones: their numbers go on
into the reservation of the next node.  A node of another type never has
another number of ports.
-/

namespace Patchbay

/-! ## Ports of a node -/

variable [Formula.Engine]

/-- How many ports a node has now. -/
def Node.portTotal (n : Node) : Nat := n.ports.inputs.length + n.ports.outputs.length

/-- The numbers from the identity of a node on, one for each port that it has now, are different
from those of another node. -/
def Node.Disjoint (m n : Node) : Prop :=
  m.id.val.toNat + m.portTotal < n.id.val.toNat ∨ n.id.val.toNat + n.portTotal < m.id.val.toNat

instance (m n : Node) : Decidable (m.Disjoint n) := inferInstanceAs (Decidable (_ ∨ _))

namespace NodeType

/-- The number of inputs may change. -/
def IsElastic (t : NodeType) : Prop := t = function ∨ t = list ∨ t = path

instance (t : NodeType) : Decidable t.IsElastic := inferInstanceAs (Decidable (_ ∨ _))

end NodeType

/-- A state of a type with a fixed number of inputs counts on as many inputs as there are at
creation. -/
theorem Behavior.counted?_of_rigid {b : Behavior} (h : ¬b.type.IsElastic) :
    ∃ names, b.counted? = some names ∧ names.length = b.type.inputNames.length := by
  cases b with
  | function s => exact absurd (Or.inl rfl) h
  | list s => exact absurd (Or.inr (Or.inl rfl)) h
  | path s => exact absurd (Or.inr (Or.inr rfl)) h
  | camera s => exact ⟨_, rfl, rfl⟩
  | _ => exact ⟨_, rfl, rfl⟩

namespace Node

variable {n : Node}

theorem length_outputs (h : n.Sound) : n.ports.outputs.length = n.type.outputNames.length := by
  rw [← h.outputs, Directory.outputNames, List.length_map]

/-- A node has the inputs that its state counts on, and the outputs of its type. -/
theorem portTotal_of_counted (hsound : n.Sound) (hfits : n.Fits) {names : List String}
    (h : n.behavior.counted? = some names) :
    n.portTotal = names.length + n.type.outputNames.length := by
  rw [portTotal, length_outputs hsound, ← Directory.length_inputNames, hfits.names names h]

/-- A node of a type with a fixed number of inputs has the ports that it had at creation. -/
theorem portTotal_of_rigid (hsound : n.Sound) (hfits : n.Fits) (h : ¬n.type.IsElastic) :
    n.portTotal = n.type.portCount := by
  obtain ⟨names, hcounted, hlength⟩ := Behavior.counted?_of_rigid h
  rw [portTotal_of_counted hsound hfits hcounted, hlength]
  rfl

theorem Step.type {m : Node} (h : n.Step m) : m.type = n.type := by
  cases h with
  | edit h =>
      cases h with
      | detach i => exact n.type_detach i
      | attach e source o i => exact Graph.type_attachedNode e source o i n
      | set s => exact s.type_onNode n
  | turn now supply _ _ => exact takeTurn_type now supply n

theorem Evolves.type {m : Node} (h : n.Evolves m) : m.type = n.type := by
  induction h with
  | refl => rfl
  | tail _ hstep ih => exact hstep.type.trans ih

end Node

namespace Graph

/-! ## Graphs whose nodes come from the counter -/

/-- An action that brings no node in and puts no other context in place. -/
def Action.isInner : Action → Bool
  | create _ | add _ _ | use _ | load _ => false
  | _ => true

/-- A graph whose nodes were all made with identities from its counter, of which there were
enough. -/
inductive Counted : Graph → Prop
  | empty (name : String) : Counted (Graph.empty name)
  | create {g : Graph} (t : NodeType) : (g.context.allocate t.portCount).1.isSome →
      Counted g → Counted (g.createNode t).2
  | inner {g : Graph} (a : Action) : a.isInner = true → Counted g → Counted (a.apply g)

theorem Counted.authored {g : Graph} (h : g.Counted) : g.Authored := by
  induction h with
  | empty name => exact .empty name
  | create t _ _ ih => exact .edit (.create t) rfl ih
  | inner a ha _ ih =>
      refine .edit a ?_ ih
      cases a with
      | load bytes => exact nomatch ha
      | _ => rfl

theorem Action.not_brings_of_isInner {a : Action} (h : a.isInner = true) (g : Graph) (n : Node) :
    ¬a.Brings g n := by
  cases a with
  | create t => exact nomatch h
  | add t c => exact nomatch h
  | load bytes => exact nomatch h
  | _ => exact id

theorem context_connect {g g' : Graph} {producer consumer : NodeId} {output input : Nat} {e : Edge}
    (h : g.connect producer output consumer input = .ok (e, g')) : g'.context = g.context := by
  obtain ⟨-, source, target, o, i, -, rfl⟩ := connect_eq_ok.mp h
  rfl

theorem context_disconnect {g g' : Graph} {consumer : NodeId} {input : Nat} {e : Edge}
    (h : g.disconnect consumer input = some (e, g')) : g'.context = g.context := by
  obtain ⟨slot, -, -, -, rfl⟩ := disconnect_eq_some h
  rfl

theorem context_connectedOr {g : Graph} {r : Except ConnectionError (Edge × Graph)}
    (h : ∀ e g', r = .ok (e, g') → g'.context = g.context) :
    (g.connectedOr r).context = g.context := by
  cases r with
  | ok r => exact h r.1 r.2 rfl
  | error _ => rfl

/-- Such an action leaves the counter where it is, unless it takes all nodes away. -/
theorem Action.nextId_of_isInner {a : Action} (h : a.isInner = true) (g : Graph) :
    (a.apply g).context.nextId = g.context.nextId ∨ (a.apply g).nodes = [] := by
  have hframe : ∀ (poll : Poll) (f : Clock → Clock),
      ((g.withClock f).evaluate poll).context.nextId = g.context.nextId := by
    intro poll f
    rw [context_frame]
    rfl
  cases a with
  | create t => exact nomatch h
  | add t c => exact nomatch h
  | use c => exact nomatch h
  | load bytes => exact nomatch h
  | clear => exact Or.inr rfl
  | remove id => exact Or.inl (congrArg Context.nextId (context_removeNode g id))
  | connect producer output consumer input =>
      exact Or.inl (congrArg Context.nextId (context_connectedOr fun _ _ hc => context_connect hc))
  | connectNamed producer output consumer input =>
      refine Or.inl (congrArg Context.nextId (context_connectedOr fun e g' hc => ?_))
      obtain ⟨o, i, hc⟩ := connect_of_connectNamed hc
      exact context_connect hc
  | disconnect consumer input =>
      left
      show (((g.disconnect consumer input).map Prod.snd).getD g).context.nextId = _
      cases hd : g.disconnect consumer input with
      | none => rfl
      | some r => exact congrArg Context.nextId (context_disconnect hd)
  | set id s => exact Or.inl rfl
  | step poll dt => exact Or.inl (hframe poll (·.step dt))
  | tick poll now => exact Or.inl (hframe poll (·.tick now))

/-! ## Reservations -/

/-- What is reserved for each node ends before the counter and before the next node. -/
structure Reserved (g : Graph) : Prop where
  below {x : NodeId} {n : Node} : g.node? x = some n →
    x.val.toNat + n.type.portCount < g.context.nextId.toNat
  apart {x y : NodeId} {m n : Node} : g.node? x = some m → g.node? y = some n →
    x.val.toNat < y.val.toNat → x.val.toNat + m.type.portCount < y.val.toNat

omit [Formula.Engine] in
theorem allocate_of_isSome {c : Context} {ports : Nat} (h : (c.allocate ports).1.isSome) :
    c.nextId.toNat + ports + 1 < Context.idLimit ∧
      c.allocate ports =
        (some ⟨c.nextId⟩, { c with nextId := UInt32.ofNat (c.nextId.toNat + ports + 1) }) := by
  have hroom : c.nextId.toNat + ports + 1 < Context.idLimit := by
    by_contra hnone
    rw [Context.allocate, if_neg hnone] at h
    exact nomatch h
  exact ⟨hroom, if_pos hroom⟩

/-- A new node starts where the counter stands, and the counter moves behind its ports. -/
theorem node?_createNode {g : Graph} (hfree : (⟨g.context.nextId⟩ : NodeId) ∉ g.ids) {t : NodeType}
    (hid : (g.context.allocate t.portCount).1.isSome) :
    ∃ n : Node, n.type = t ∧
      (∀ x, (g.createNode t).2.node? x = if x = ⟨g.context.nextId⟩ then some n else g.node? x) ∧
      (g.createNode t).2.context.nextId.toNat = g.context.nextId.toNat + t.portCount + 1 := by
  obtain ⟨hroom, hallocated⟩ := allocate_of_isSome hid
  have hwanted : (Node.create t g.context).1.id = ⟨g.context.nextId⟩ := by
    show (g.context.allocate t.portCount).1.getD .unallocated = _
    rw [hallocated]
    rfl
  have hnext : (Node.create t g.context).2.nextId =
      UInt32.ofNat (g.context.nextId.toNat + t.portCount + 1) := by
    show (g.context.allocate t.portCount).2.nextId = _
    rw [hallocated]
  set n : Node := { (Node.create t g.context).1 with id := (g.createNode t).1 }
  set g' : Graph := { g with context := (Node.create t g.context).2 }
  have hidn : n.id = ⟨g.context.nextId⟩ := by
    show g.settleId (Node.create t g.context).1.id = _
    rw [hwanted, settleId, if_neg fun hmem => hfree (contains_iff.mp hmem)]
  have hnode : n.id ∉ g'.ids := by
    rw [hidn]
    exact hfree
  have hgraph : (g.createNode t).2 = g'.inserted n := by
    show g'.addNode n = _
    rw [addNode_eq, removeNode_of_not_mem hnode]
  refine ⟨n, (Node.fresh_create t g.context _).type, fun x => ?_, ?_⟩
  · rw [hgraph, node?_inserted hnode, hidn]
    rfl
  · rw [hgraph]
    show (Node.create t g.context).2.nextId.toNat = _
    rw [hnext]
    exact Nat.mod_eq_of_lt hroom

/-- No node has the identity that is next. -/
theorem Reserved.nextId_not_mem {g : Graph} (h : g.Reserved) :
    (⟨g.context.nextId⟩ : NodeId) ∉ g.ids := by
  intro hmem
  obtain ⟨n, hn⟩ := exists_node_of_mem_ids hmem
  have hbelow := h.below hn
  change g.context.nextId.toNat + _ < g.context.nextId.toNat at hbelow
  omega

theorem Reserved.createNode {g : Graph} (h : g.Reserved) {t : NodeType}
    (hid : (g.context.allocate t.portCount).1.isSome) : (g.createNode t).2.Reserved := by
  obtain ⟨n, htype, hnode, hnext⟩ := node?_createNode h.nextId_not_mem hid
  constructor
  · intro x m hm
    rw [hnode] at hm
    rw [hnext]
    split at hm
    · rename_i hx
      cases hm
      rw [hx, htype]
      exact Nat.lt_succ_self _
    · have := h.below hm
      omega
  · intro x y k m hk hm hxy
    rw [hnode] at hk hm
    split at hk
    · -- Nothing comes behind the new node.
      rename_i hx
      split at hm
      · rename_i hy
        rw [hx, hy] at hxy
        exact absurd hxy (Nat.lt_irrefl _)
      · have := h.below hm
        rw [hx] at hxy
        change g.context.nextId.toNat < _ at hxy
        omega
    · split at hm
      · rename_i hy
        rw [hy]
        exact h.below hk
      · exact h.apart hk hm hxy

theorem Reserved.inner {g : Graph} (hg : g.Reachable) (h : g.Reserved) {a : Action}
    (ha : a.isInner = true) : (a.apply g).Reserved := by
  have hold : ∀ {x m}, (a.apply g).node? x = some m →
      ∃ n, g.node? x = some n ∧ m.type = n.type := by
    intro x m hm
    obtain ⟨n, hnm, hn | hn⟩ := evolves_apply hg.standing a x m hm
    · exact ⟨n, hn, Node.Evolves.type hnm⟩
    · exact absurd hn (Action.not_brings_of_isInner ha g n)
  constructor
  · intro x m hm
    obtain ⟨n, hn, htype⟩ := hold hm
    rcases Action.nextId_of_isInner ha g with hnext | hnone
    · rw [hnext, htype]
      exact h.below hn
    · rw [node?, hnone] at hm
      cases hm
  · intro x y k m hk hm hxy
    obtain ⟨n, hn, htype⟩ := hold hk
    obtain ⟨n', hn', -⟩ := hold hm
    rw [htype]
    exact h.apart hn hn' hxy

/-- The reservations of a graph whose nodes come from the counter do not overlap. -/
theorem Counted.reserved {g : Graph} (h : g.Counted) : g.Reserved := by
  induction h with
  | empty name => exact ⟨nofun, nofun⟩
  | create t hid _ ih => exact ih.createNode hid
  | inner a ha h ih => exact ih.inner h.authored.reachable ha

/-! ## Numbers of ports -/

/-- Of two nodes from the counter the later one starts behind the ports that the earlier one had
at creation.  So the numbers of their ports are different exactly when those of the earlier one,
as many as it has now, end before the later one.  They do when it has no more ports than at
creation; nodes of all types but three always have exactly as many, and the others have those that
their states count on. -/
theorem disjoint_of_counted {g : Graph} (h : g.Counted) {x y : NodeId} {m n : Node}
    (hm : g.node? x = some m) (hn : g.node? y = some n) (hxy : x.val.toNat < y.val.toNat) :
    x.val.toNat + m.type.portCount < y.val.toNat ∧
      (m.Disjoint n ↔ x.val.toNat + m.portTotal < y.val.toNat) ∧
      (m.portTotal ≤ m.type.portCount → m.Disjoint n) ∧
      (¬m.type.IsElastic → m.portTotal = m.type.portCount) ∧
      ∀ names, m.behavior.counted? = some names →
        m.portTotal = names.length + m.type.outputNames.length := by
  have hapart := h.reserved.apart hm hn hxy
  have hiff : m.Disjoint n ↔ x.val.toNat + m.portTotal < y.val.toNat := by
    rw [Node.Disjoint, id_of_node? hm, id_of_node? hn]
    omega
  obtain ⟨-, hsound⟩ := h.authored.reachable.standing.steady hm
  have hfits := h.authored.fits x m hm
  exact ⟨hapart, hiff, fun hle => hiff.mpr (by omega), Node.portTotal_of_rigid hsound hfits,
    fun names => Node.portTotal_of_counted hsound hfits⟩

end Graph

end Patchbay

/-! ## With the standard engine -/

namespace Patchbay.Graph

/-- A function that has got three inputs before a value is made. -/
def crossed : Graph :=
  run [.create .function, .set ⟨0⟩ (.arity .three), .step Poll.none 0, .create .value] (empty "")

theorem counted_crossed : crossed.Counted :=
  .create .value (by decide +kernel)
    (.inner (.step Poll.none 0) rfl
      (.inner (.set ⟨0⟩ (.arity .three)) rfl (.create .function (by decide +kernel) (.empty ""))))

/-- The value comes behind the two ports of a new function, but the four that the function has by
then end behind the value. -/
theorem disjoint_of_counted_crossed :
    ∃ m n, crossed.node? ⟨0⟩ = some m ∧ crossed.node? ⟨3⟩ = some n ∧
      0 + m.type.portCount < 3 ∧ (m.Disjoint n ↔ 0 + m.portTotal < 3) ∧ m.portTotal = 4 := by
  obtain ⟨m, hm⟩ := Option.isSome_iff_exists.mp (by decide +kernel : (crossed.node? ⟨0⟩).isSome)
  obtain ⟨n, hn⟩ := Option.isSome_iff_exists.mp (by decide +kernel : (crossed.node? ⟨3⟩).isSome)
  have hports : (crossed.node? ⟨0⟩).map Node.portTotal = some 4 := by decide +kernel
  rw [hm] at hports
  obtain ⟨hapart, hiff, -, -⟩ := disjoint_of_counted counted_crossed hm hn (by decide)
  exact ⟨m, n, hm, hn, hapart, hiff, Option.some.inj hports⟩

/-- Not all nodes from the counter have numbers of their own for their ports. -/
theorem overlapping_of_crossed :
    crossed.Counted ∧ ∃ m n, crossed.node? ⟨0⟩ = some m ∧ crossed.node? ⟨3⟩ = some n ∧
      ¬m.Disjoint n := by
  have hports : (crossed.node? ⟨0⟩).map (fun m => (m.id, m.portTotal)) = some (⟨0⟩, 4) ∧
      (crossed.node? ⟨3⟩).map (fun n => (n.id, n.portTotal)) = some (⟨3⟩, 1) := by
    decide +kernel
  obtain ⟨m, hm, hfunction⟩ := Option.map_eq_some_iff.mp hports.1
  obtain ⟨n, hn, hvalue⟩ := Option.map_eq_some_iff.mp hports.2
  obtain ⟨hmid, hmtotal⟩ := Prod.mk.inj hfunction
  obtain ⟨hnid, hntotal⟩ := Prod.mk.inj hvalue
  refine ⟨counted_crossed, m, n, hm, hn, ?_⟩
  rw [Node.Disjoint, hmid, hmtotal, hnid, hntotal]
  decide

end Patchbay.Graph
