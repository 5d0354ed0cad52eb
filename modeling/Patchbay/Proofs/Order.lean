import Patchbay.Formula.Basic
import Patchbay.Proofs.Delays
/-!
The order of the nodes.

Nodes stand by class, and within a class by the time when they were last
added.  The graph does not know this time, so a history is kept beside it:
the identities of all additions, the latest first (`History`).  Additions
are nodes that are made, nodes that come from elsewhere, with whatever
identity and class, and the nodes of a scene that is loaded, one by one.

`InOrder` ties the graph to the history.  What adds no node changes neither
the identities nor the classes, so the history stays as it is; an addition
makes every other node one addition older, and puts the new node, which is
the youngest, behind all nodes of its class.
-/

namespace Patchbay

variable [Formula.Engine]

namespace Graph

/-! ## Histories -/

/-- An action, or the addition of a node from elsewhere. -/
inductive Change where
  | act (a : Action)
  | add (n : Node)

namespace Change

def apply : Change → Graph → Graph
  | act a, g => a.apply g
  | add n, g => g.addNode n

/-- The identities of the nodes that a change adds, one after the other.  The nodes of a scene are
added when all of it can be read. -/
def added (g : Graph) : Change → List NodeId
  | add n => [n.id]
  | act (.create t) => [(g.createNode t).1]
  | act (.add t c) => [(Node.create t c).1.id]
  | act (.load bytes) =>
    match readScene g.clear.context (Bytes.Buffer.ofBytes bytes) with
    | .ok s _ => s.nodes.map Node.id
    | .error _ _ => []
  | act _ => []

end Change

/-- A graph, and the identities of all nodes that have been added, the latest first. -/
structure History where
  graph : Graph
  added : List NodeId

namespace History

/-- Nothing has been added yet. -/
def start (name : String) : History := ⟨empty name, []⟩

def step (h : History) (c : Change) : History :=
  ⟨c.apply h.graph, (c.added h.graph).reverse ++ h.added⟩

def run (changes : List Change) (h : History) : History := changes.foldl step h

end History

/-! ## Nodes in order -/

/-- How many additions ago a node was last added. -/
def age (added : List NodeId) (id : NodeId) : Nat := added.idxOf id

/-- A node stands before another one when its class runs earlier, or when it is of the same class
and was added earlier. -/
def Ahead (added : List NodeId) (n m : Node) : Prop :=
  n.priority.before m.priority = true ∨ n.priority = m.priority ∧ age added m.id < age added n.id

/-- Identities differ, all nodes have been added, and each is ahead of those that follow it. -/
structure InOrder (added : List NodeId) (g : Graph) : Prop where
  nodup : g.ids.Nodup
  known : ∀ id ∈ g.ids, id ∈ added
  ahead : g.nodes.Pairwise (Ahead added)

/-- The identities but one. -/
def others (id : NodeId) (ids : List NodeId) : List NodeId := ids.filter (· != id)

variable {g g' : Graph} {added : List NodeId} {n m k : Node}

omit [Formula.Engine] in
theorem age_self (id : NodeId) : age (id :: added) id = 0 := List.idxOf_cons_self

omit [Formula.Engine] in
theorem age_of_ne {id x : NodeId} (h : x ≠ id) : age (id :: added) x = age added x + 1 := by
  rw [age, List.idxOf_cons, beq_false_of_ne h.symm]
  rfl

/-- Another addition makes two nodes older alike. -/
theorem Ahead.later (h : Ahead added m k) (hm : m.id ≠ n.id) (hk : k.id ≠ n.id) :
    Ahead (n.id :: added) m k := by
  rcases h with hbefore | ⟨hclass, hage⟩
  · exact Or.inl hbefore
  · refine Or.inr ⟨hclass, ?_⟩
    rw [age_of_ne hm, age_of_ne hk]
    exact Nat.succ_lt_succ hage

/-- A node of an earlier class, or of the same, is ahead of the one that is added. -/
theorem ahead_added (hm : m.id ≠ n.id) (h : n.priority.before m.priority = false) :
    Ahead (n.id :: added) m n := by
  cases hbefore : m.priority.before n.priority with
  | true => exact Or.inl hbefore
  | false =>
      refine Or.inr ⟨Priority.eq_of_not_before hbefore h, ?_⟩
      rw [age_self, age_of_ne hm]
      exact Nat.succ_pos _

/-- What runs before a node runs before those that the node is ahead of. -/
theorem Ahead.before_trans (hmk : Ahead added m k) (h : n.priority.before m.priority = true) :
    n.priority.before k.priority = true := by
  rcases hmk with hbefore | ⟨hclass, -⟩
  · exact Priority.before_trans h hbefore
  · rw [← hclass]
    exact h

/-- The new node is put behind those of its class, and before those of later ones. -/
theorem pairwise_insertByPriority {nodes : List Node} (h : nodes.Pairwise (Ahead added))
    (hid : ∀ m ∈ nodes, m.id ≠ n.id) :
    (insertByPriority n nodes).Pairwise (Ahead (n.id :: added)) := by
  induction nodes with
  | nil => exact List.pairwise_singleton _ n
  | cons m rest ih =>
      obtain ⟨hm, hrest⟩ := List.pairwise_cons.mp h
      have hidm : m.id ≠ n.id := hid m List.mem_cons_self
      have hidrest : ∀ k ∈ rest, k.id ≠ n.id := fun k hk => hid k (List.mem_cons_of_mem m hk)
      cases hbefore : n.priority.before m.priority with
      | true =>
          rw [insertByPriority, if_pos hbefore]
          refine List.pairwise_cons.mpr ⟨fun k hk => ?_, ?_⟩
          · rcases List.mem_cons.mp hk with rfl | hk
            · exact Or.inl hbefore
            · exact Or.inl ((hm k hk).before_trans hbefore)
          · exact h.imp_of_mem fun hx hy hxy => hxy.later (hid _ hx) (hid _ hy)
      | false =>
          rw [insertByPriority, if_neg (by simp [hbefore])]
          refine List.pairwise_cons.mpr ⟨fun k hk => ?_, ih hrest hidrest⟩
          rcases mem_insertByPriority.mp hk with rfl | hk
          · exact ahead_added hidm hbefore
          · exact (hm k hk).later hidm (hidrest k hk)

/-! ## What keeps the order -/

/-- Whatever leaves the identities and the classes as they are. -/
theorem InOrder.of_same (h : g.InOrder added)
    (hsame : g'.nodes.map (fun n => (n.id, n.priority)) = g.nodes.map fun n => (n.id, n.priority)) :
    g'.InOrder added := by
  have hids : g'.ids = g.ids := by
    have := congrArg (List.map Prod.fst) hsame
    simpa [ids, Function.comp_def] using this
  -- Being ahead, said of an identity and a class.
  have hpairs : (g.nodes.map fun n => (n.id, n.priority)).Pairwise fun p q =>
      p.2.before q.2 = true ∨ p.2 = q.2 ∧ age added q.1 < age added p.1 :=
    List.pairwise_map.mpr h.ahead
  rw [← hsame] at hpairs
  have hahead : g'.nodes.Pairwise (Ahead added) := by
    rw [List.pairwise_map] at hpairs
    exact hpairs
  refine ⟨?_, ?_, hahead⟩
  · rw [hids]
    exact h.nodup
  · rw [hids]
    exact h.known

theorem InOrder.modify (h : g.InOrder added) {id : NodeId} {f : Node → Node}
    (hf : ∀ n ∈ g.nodes, n.id = id → (f n).id = n.id ∧ (f n).priority = n.priority) :
    (g.modifyNode id f).InOrder added :=
  h.of_same (map_changeNode fun n hn hid => Prod.ext (hf n hn hid).1 (hf n hn hid).2)

theorem InOrder.remove (h : g.InOrder added) (id : NodeId) : (g.removeNode id).InOrder added := by
  have hkept : InOrder added { g with nodes := g.nodes.filter (·.id != id) } := by
    have hsublist : (g.nodes.filter (·.id != id)).Sublist g.nodes := List.filter_sublist
    exact ⟨h.nodup.sublist (hsublist.map _), fun x hx => h.known x ((hsublist.map _).subset hx),
      h.ahead.sublist hsublist⟩
  unfold removeNode
  split
  · exact hkept.of_same (map_detachAll (fun n i => Prod.ext (n.id_detach i) (n.priority_detach i)) _ _)
  · exact h

/-- What adds no node keeps the order of the nodes that are there. -/
theorem inOrder_upkeep (added : List NodeId) :
    Upkeep (fun _ => False) Always fun _ g => g.InOrder added where
  blank _ _ := ⟨List.nodup_nil, fun _ hid => (nomatch hid), List.Pairwise.nil⟩
  context _ _ h := ⟨h.nodup, h.known, h.ahead⟩
  remove id _ h := h.remove id
  insert _ _ _ hn := hn.elim
  attach {g e source target o i} _ h _ := by
    have hmodify : (g.modifyNode e.consumer (attachedNode e source o i)).InOrder added :=
      h.modify fun n _ _ =>
        ⟨id_attachedNode e source o i n, priority_attachedNode e source o i n⟩
    exact ⟨hmodify.nodup, hmodify.known, hmodify.ahead⟩
  disconnect {g e g' consumer input} _ h hd := by
    obtain ⟨slot, rfl, -, -, rfl⟩ := disconnect_eq_some hd
    have hmodify : (g.modifyNode consumer (·.detach slot.toNat)).InOrder added :=
      h.modify fun n _ _ => ⟨n.id_detach _, n.priority_detach _⟩
    exact ⟨hmodify.nodup, hmodify.known, hmodify.ahead⟩
  set id s _ h := h.modify fun n _ _ => ⟨s.id_onNode n, s.priority_onNode n⟩
  turn {g id rest} now _ h := by
    cases hn : g.node? id with
    | none =>
        rw [runNode_of_none hn]
        exact h
    | some n =>
        have hmodify :
            (g.modifyNode id fun _ => (n.takeTurn now (supplyOf g.nodes n)).1).InOrder added := by
          refine h.modify fun m hm hid => ?_
          have hmn : g.node? id = some m := hid ▸ nodeIn?_of_mem h.nodup hm
          cases hn.symm.trans hmn
          exact ⟨Node.takeTurn_id now _ n, Node.takeTurn_priority now _ n⟩
        rw [runNode_eq hn]
        exact ⟨hmodify.nodup, hmodify.known, hmodify.ahead⟩

theorem InOrder.add (h : g.InOrder added) (n : Node) : (g.addNode n).InOrder (n.id :: added) := by
  have hremoved := h.remove n.id
  have hnew := not_mem_ids_removeNode g n.id
  rw [addNode_eq]
  refine ⟨nodup_insertByPriority hremoved.nodup hnew, fun x hx => ?_,
    pairwise_insertByPriority hremoved.ahead fun m hm hid => ?_⟩
  · obtain ⟨m, hm, rfl⟩ := List.mem_map.mp hx
    rcases mem_insertByPriority.mp hm with rfl | hm
    · exact List.mem_cons_self
    · exact List.mem_cons_of_mem _ (hremoved.known m.id (List.mem_map_of_mem hm))
  · have hmem : m.id ∈ (g.removeNode n.id).ids := List.mem_map_of_mem hm
    exact hnew (hid ▸ hmem)

theorem InOrder.addAll (nodes : List Node) (h : g.InOrder added) :
    (nodes.foldl addNode g).InOrder ((nodes.map Node.id).reverse ++ added) := by
  induction nodes generalizing g added with
  | nil => exact h
  | cons n nodes ih =>
      have hrest := ih (h.add n)
      rw [List.map_cons, List.reverse_cons, List.append_assoc]
      exact hrest

/-- A load starts with no nodes, so nothing matters that was added before. -/
theorem inOrder_load (g : Graph) (bytes : List UInt8) (added : List NodeId) :
    (g.load bytes).2.InOrder (((Change.act (.load bytes)).added g).reverse ++ added) := by
  have hclear : g.clear.InOrder added := (inOrder_upkeep added).blank g.name g.context.reset
  cases hread : readScene g.clear.context (Bytes.Buffer.ofBytes bytes) with
  | error e b =>
      rw [load_of_error hread]
      simpa [Change.added, hread] using hclear
  | ok s b =>
      rw [load_of_ok hread]
      have hstart : InOrder added { g.clear with context := s.context } :=
        ⟨hclear.nodup, hclear.known, hclear.ahead⟩
      have hfilled : (g.clear.fill s).InOrder ((s.nodes.map Node.id).reverse ++ added) :=
        (inOrder_upkeep _).reconnectAll s.edges (hstart.addAll s.nodes)
      simpa [Change.added, hread] using hfilled

/-- A change keeps the order, with its additions noted. -/
theorem InOrder.step (h : g.InOrder added) (c : Change) :
    (c.apply g).InOrder ((c.added g).reverse ++ added) := by
  cases c with
  | add n => exact h.add n
  | act a =>
      have hother : (∀ n, ¬a.Brings g n) → (a.apply g).InOrder added := fun hnone =>
        (inOrder_upkeep added).apply hnone h
      cases a with
      | create t =>
          have hstart : InOrder added { g with context := (Node.create t g.context).2 } :=
            ⟨h.nodup, h.known, h.ahead⟩
          exact hstart.add { (Node.create t g.context).1 with id := (g.createNode t).1 }
      | add t c => exact h.add _
      | load bytes => exact inOrder_load g bytes added
      | _ => exact hother fun _ hn => hn

/-- After any changes the graph is in order. -/
theorem InOrder.run (changes : List Change) {s : History} (h : s.graph.InOrder s.added) :
    (s.run changes).graph.InOrder (s.run changes).added := by
  induction changes generalizing s with
  | nil => exact h
  | cons c changes ih => exact ih (h.step c)

/-! ## The other nodes -/

/-- A node that is put into the list leaves the others where they were. -/
theorem others_insertByPriority (n : Node) (nodes : List Node) :
    others n.id ((insertByPriority n nodes).map Node.id) = others n.id (nodes.map Node.id) := by
  obtain ⟨front, back, rfl, hins⟩ := insertByPriority_split n nodes
  rw [hins]
  simp [others]

theorem ids_others_removeNode (g : Graph) (id : NodeId) :
    others id (g.removeNode id).ids = others id g.ids := by
  rw [ids_removeNode, others, List.filter_filter]
  simp [others]

/-- A node that is added leaves the others in their order, also when it replaces one. -/
theorem others_addNode (g : Graph) (n : Node) :
    others n.id (g.addNode n).ids = others n.id g.ids :=
  (others_insertByPriority n _).trans (ids_others_removeNode g n.id)

/-- Evaluation order is the stable order of the classes: after any changes the nodes stand by
class, and within a class by the time when they were last added.  In every graph, adding a node
leaves the others in their order, and so does removing one. -/
theorem stable_order (name : String) (changes : List Change) :
    ((History.start name).run changes).graph.InOrder ((History.start name).run changes).added ∧
      ∀ g : Graph,
        (∀ n, others n.id (g.addNode n).ids = others n.id g.ids) ∧
          (∀ t, others (g.createNode t).1 (g.createNode t).2.ids =
            others (g.createNode t).1 g.ids) ∧
            ∀ id, (g.removeNode id).ids = others id g.ids := by
  have hstart : (History.start name).graph.InOrder (History.start name).added :=
    (inOrder_upkeep []).blank name Context.new
  refine ⟨hstart.run changes, fun g => ⟨others_addNode g, fun t => ?_, ids_removeNode g⟩⟩
  exact others_addNode { g with context := (Node.create t g.context).2 }
    { (Node.create t g.context).1 with id := (g.createNode t).1 }

end Graph

end Patchbay

/-! ## With the standard engine -/

namespace Patchbay.Graph

/-- A constant that is replaced by one of its identity goes behind the sum, and stays before the
sink, which was there first. -/
example :
    ((History.start "replaced").run [.act (.create .render), .act (.create .value),
      .act (.create .math), .add { (Node.create .value Context.new).1 with id := ⟨6⟩ }]).graph.ids =
        [⟨8⟩, ⟨6⟩, ⟨0⟩] := by
  decide +kernel

end Patchbay.Graph
