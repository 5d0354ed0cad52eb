import Patchbay.Formula.Basic
import Patchbay.Proofs.Independence
import Patchbay.Proofs.Loading
/-!
Nodes that are let alone.

An edit that spares a set of nodes sets no field of theirs, changes no edge
into them, and neither replaces nor removes one of them.  It leaves them as
they are, and in their order, when all their producers are in the set: then
the removal of another node takes no source from them.  So two graphs that
agree on the set go on agreeing on it while each of them is edited and both
run their frames, whatever becomes of the other nodes.
-/

namespace Patchbay.Graph

/-! ## Edits that spare some nodes -/

variable [Formula.Engine]

/-- Whether an edit of a graph lets some nodes alone.  Frames are no edits, and clearing and
loading remove all nodes. -/
def Action.Spares (S : Set NodeId) (g : Graph) : Action → Prop
  | create t => (g.createNode t).1 ∉ S
  | add t c => (Node.create t c).1.id ∉ S
  | remove id => id ∉ S
  | connect _ _ consumer _ => consumer ∉ S
  | connectNamed _ _ consumer _ => consumer ∉ S
  | disconnect consumer _ => consumer ∉ S
  | set id _ => id ∉ S
  | use c => c.clock = g.context.clock
  | step _ _ => False
  | tick _ _ => False
  | clear => False
  | load _ => False

/-- The second graph has the nodes of a set as the first one has them, and in their order. -/
structure Untouched (S : Set NodeId) (g g' : Graph) : Prop where
  node : ∀ x ∈ S, g'.node? x = g.node? x
  order : ∀ x ∈ S, ∀ y ∈ S, g'.Precedes x y ↔ g.Precedes x y
  clock : g'.context.clock = g.context.clock

section Edits
variable {S : Set NodeId} {g : Graph}

theorem Untouched.refl (g : Graph) : Untouched S g g :=
  ⟨fun _ _ => rfl, fun _ _ _ _ => Iff.rfl, rfl⟩

theorem Untouched.trans {g' g'' : Graph} (h : Untouched S g g') (h' : Untouched S g' g'') :
    Untouched S g g'' where
  node x hx := (h'.node x hx).trans (h.node x hx)
  order x hx y hy := (h'.order x hx y hy).trans (h.order x hx y hy)
  clock := h'.clock.trans h.clock

/-- A change of one node that is not in the set. -/
theorem untouched_change {g' : Graph} {id : NodeId} {f : Node → Node} (hid : id ∉ S)
    (hnode : ∀ x, g'.node? x = if x = id then (g.node? x).map f else g.node? x)
    (hids : g'.ids = g.ids) (hcontext : g'.context = g.context) : Untouched S g g' where
  node x hx := by
    rw [hnode, if_neg (ne_of_mem_of_not_mem hx hid)]
  order x _ y _ := Precedes.congr hids x y
  clock := congrArg Context.clock hcontext

/-- A node keeps its place among others when another one is put between them. -/
theorem ids_of_inserted {n : Node} (hn : n.id ∉ g.ids) :
    g.ids = (g.inserted n).ids.filter (· != n.id) := by
  obtain ⟨front, back, hsplit, hins⟩ := insertByPriority_split n g.nodes
  have hids : g.ids = (front ++ back).map Node.id := congrArg (List.map Node.id) hsplit
  have hafter : (g.inserted n).ids = (front ++ n :: back).map Node.id :=
    congrArg (List.map Node.id) hins
  calc g.ids = g.ids.filter (· != n.id) := by
        refine (List.filter_eq_self.mpr fun x hx => ?_).symm
        simpa using ne_of_mem_of_not_mem hx hn
    _ = ((front ++ n :: back).map Node.id).filter (· != n.id) := by
        rw [hids]
        simp [List.filter_append]
    _ = (g.inserted n).ids.filter (· != n.id) := by rw [hafter]

theorem untouched_inserted {n : Node} (hn : n.id ∉ g.ids) (hS : n.id ∉ S) :
    Untouched S g (g.inserted n) where
  node x hx := by
    rw [node?_inserted hn, if_neg (ne_of_mem_of_not_mem hx hS)]
  order x hx y hy := (precedes_of_filter (ids_of_inserted hn) (ne_of_mem_of_not_mem hx hS)
    (ne_of_mem_of_not_mem hy hS)).symm
  clock := rfl

/-- Detaching inputs of other nodes leaves a node as it is. -/
theorem nodeIn?_detachAll {edges : List Edge} {nodes : List Node} {x : NodeId}
    (h : ∀ e ∈ edges, e.consumer ≠ x) :
    nodeIn? (detachAll edges nodes) x = nodeIn? nodes x := by
  induction edges generalizing nodes with
  | nil => rfl
  | cons e edges ih =>
      have hhead : x ≠ e.consumer := (h e List.mem_cons_self).symm
      rw [detachAll_cons, ih fun y hy => h y (List.mem_cons_of_mem e hy),
        nodeIn?_changeNode fun n hn => (n.id_detach _).trans hn, if_neg hhead]

variable (hw : g.Wired) (hclosed : ∀ x ∈ S, ∀ i a, g.source? x i = some a → a.producer ∈ S)
include hw hclosed

/-- A node that is removed feeds none whose producers are all others. -/
theorem untouched_remove {id : NodeId} (hid : id ∉ S) : Untouched S g (g.removeNode id) where
  node x hx := by
    have hne : x ≠ id := ne_of_mem_of_not_mem hx hid
    unfold removeNode
    by_cases hmem : g.contains id = true
    · rw [if_pos hmem]
      refine (nodeIn?_detachAll fun e he => ?_).trans ?_
      · rintro rfl
        obtain ⟨hedge, rfl⟩ := EdgeTable.mem_outgoing.mp he
        exact hid (hclosed _ hx _ _ ((hw.edge_iff e).mp hedge))
      · rw [nodeIn?_filter, if_neg hne]
        rfl
    · rw [if_neg hmem]
  order x hx y hy := precedes_of_filter (ids_removeNode g id) (ne_of_mem_of_not_mem hx hid)
    (ne_of_mem_of_not_mem hy hid)
  clock := congrArg Context.clock (context_removeNode g id)

theorem untouched_add {n : Node} (hn : n.id ∉ S) : Untouched S g (g.addNode n) := by
  rw [addNode_eq]
  exact (untouched_remove hw hclosed hn).trans
    (untouched_inserted (not_mem_ids_removeNode g n.id) hn)

omit hw hclosed in
theorem untouched_connect {g' : Graph} {e : Edge} {producer consumer : NodeId}
    {output input : Nat} (hS : consumer ∉ S)
    (h : g.connect producer output consumer input = .ok (e, g')) : Untouched S g g' := by
  obtain ⟨⟨-, rfl, -, -⟩, source, target, o, i, -, rfl⟩ := connect_eq_ok.mp h
  exact untouched_change hS node?_attached ids_attached rfl

/-- Edits that spare nodes leave them as they are. -/
theorem untouched_apply {a : Action} (ha : a.Spares S g) : Untouched S g (a.apply g) := by
  cases a with
  | create t =>
      -- The context that counts the new node has the same clock.
      have hcontext : Untouched S g { g with context := (Node.create t g.context).2 } := by
        refine ⟨fun _ _ => rfl, fun _ _ _ _ => Iff.rfl, ?_⟩
        show (g.context.allocate t.portCount).2.clock = g.context.clock
        unfold Context.allocate
        simp only
        split <;> rfl
      have hwired : Wired { g with context := (Node.create t g.context).2 } :=
        ⟨hw.nodup, hw.edge_iff, hw.indexed, hw.apart, hw.producer⟩
      exact hcontext.trans (untouched_add hwired hclosed ha)
  | add t c => exact untouched_add hw hclosed ha
  | remove id => exact untouched_remove hw hclosed ha
  | connect producer output consumer input =>
      show Untouched S g (g.connectedOr (g.connect producer output consumer input))
      cases hc : g.connect producer output consumer input with
      | ok r => exact untouched_connect ha hc
      | error _ => exact Untouched.refl g
  | connectNamed producer output consumer input =>
      show Untouched S g (g.connectedOr (g.connectNamed producer output consumer input))
      cases hc : g.connectNamed producer output consumer input with
      | ok r =>
          obtain ⟨o, i, hnumbers⟩ := connect_of_connectNamed hc
          exact untouched_connect ha hnumbers
      | error _ => exact Untouched.refl g
  | disconnect consumer input =>
      show Untouched S g (((g.disconnect consumer input).map Prod.snd).getD g)
      cases hd : g.disconnect consumer input with
      | none => exact Untouched.refl g
      | some r =>
          obtain ⟨slot, rfl, -, -, hafter⟩ := disconnect_eq_some hd
          rw [Option.map_some, Option.getD_some, hafter]
          exact untouched_change ha (node?_detached g consumer slot) (ids_detached g consumer slot)
            rfl
  | set id s => exact untouched_change ha (node?_set g id s) (ids_set g id s) rfl
  | use c => exact ⟨fun _ _ => rfl, fun _ _ _ _ => Iff.rfl, ha⟩
  | step | tick | clear | load => exact ha.elim

end Edits

/-! ## Two graphs side by side -/

/-- Two graphs that run their frames together, while each of them is edited as it may be, but for
the nodes of a set.  What is known of loads may differ. -/
inductive Alongside (S : Set NodeId) (g k : Graph) : Graph → Graph → Prop
  | start : Alongside S g k g k
  | left {g' k' : Graph} (a : Action) : Alongside S g k g' k' → a.Spares S g' →
      Alongside S g k (a.apply g') k'
  | right {g' k' : Graph} (a : Action) : Alongside S g k g' k' → a.Spares S k' →
      Alongside S g k g' (a.apply k')
  | step {g' k' : Graph} (poll poll' : Poll) (dt : Nat) : Alongside S g k g' k' →
      Alongside S g k (g'.step poll dt) (k'.step poll' dt)
  | tick {g' k' : Graph} (poll poll' : Poll) (now : Nat) : Alongside S g k g' k' →
      Alongside S g k (g'.tick poll now) (k'.tick poll' now)

variable {S : Set NodeId} {g k : Graph}

/-- An edit of the first graph that spares the nodes. -/
theorem Agree.edit (h : Agree S g k) {a : Action} (ha : a.Spares S g) :
    Agree S (a.apply g) k := by
  have huntouched := untouched_apply h.left h.closed ha
  have hsource : ∀ x ∈ S, ∀ i, (a.apply g).source? x i = g.source? x i := by
    intro x hx i
    rw [Graph.source?, huntouched.node x hx]
    rfl
  refine ⟨wired_invariant.apply a h.left, h.right, fun x hx => ?_, fun x hx i b hb => ?_,
    fun x hx i b hb => ?_, h.clock.trans huntouched.clock.symm⟩
  · exact (h.node x hx).trans (huntouched.node x hx).symm
  · rw [hsource x hx] at hb
    exact h.closed x hx i b hb
  · rw [hsource x hx] at hb
    rw [huntouched.order _ (h.closed x hx i b hb) x hx]
    exact h.order x hx i b hb

/-- The nodes of the set are there, and none of them asks anything of the outside. -/
def Resting (S : Set NodeId) (g : Graph) : Prop :=
  ∀ x ∈ S, ∃ n, g.node? x = some n ∧ n.behavior.idle = true

theorem Resting.idling (h : Resting S g) : Idling S g := by
  intro x hx n hn
  obtain ⟨m, hm, hidle⟩ := h x hx
  cases hn.symm.trans hm
  exact hidle

theorem Resting.frame (h : Resting S g) (hg : g.ids.Nodup) (poll : Poll) (f : Clock → Clock) :
    Resting S ((g.withClock f).evaluate poll) := by
  intro x hx
  obtain ⟨n, hn, hidle⟩ := h x hx
  obtain ⟨done, rest, hids⟩ := exists_place hn
  exact ⟨_, node?_after_frame hg hids poll f hn, Node.idle_takeTurn hidle _ _⟩

/-- Two graphs that agree on nodes without loads go on agreeing side by side. -/
theorem Agree.alongside (h : Agree S g k) (hrest : Resting S g) {g' k' : Graph}
    (hrun : Alongside S g k g' k') : Agree S g' k' ∧ Resting S g' := by
  induction hrun with
  | start => exact ⟨h, hrest⟩
  | @left g' k' a _ ha ih =>
      obtain ⟨hagree, hresting⟩ := ih
      have huntouched := untouched_apply hagree.left hagree.closed ha
      refine ⟨hagree.edit ha, fun x hx => ?_⟩
      rw [huntouched.node x hx]
      exact hresting x hx
  | right a _ ha ih => exact ⟨(ih.1.symm.edit ha).symm, ih.2⟩
  | step poll poll' dt _ ih =>
      exact ⟨ih.1.frame_of_idling ih.2.idling poll poll' (·.step dt),
        ih.2.frame ih.1.left.nodup poll (·.step dt)⟩
  | tick poll poll' now _ ih =>
      exact ⟨ih.1.frame_of_idling ih.2.idling poll poll' (·.tick now),
        ih.2.frame ih.1.left.nodup poll (·.tick now)⟩

/-- Nodes do not interfere with nodes that do not depend on them.  Take nodes without loads that
two graphs have in common, with all their producers, each producer on the same side of its
consumers.  However each of the graphs is edited apart from these nodes while both run their
frames, the nodes and the edges that arrive at them stay the same in both. -/
theorem node?_of_alongside (hg : g.Reachable) (hk : k.Reachable)
    (hnode : ∀ x ∈ S, ∃ n, g.node? x = some n ∧ k.node? x = some n)
    (hclosed : ∀ e ∈ g.edges.edges, e.consumer ∈ S → e.producer ∈ S)
    (horder : ∀ e ∈ g.edges.edges, e.consumer ∈ S →
      (k.Precedes e.producer e.consumer ↔ g.Precedes e.producer e.consumer))
    (hclock : k.context.clock = g.context.clock)
    (hidle : ∀ x ∈ S, ∀ n, g.node? x = some n → n.behavior.idle = true) {g' k' : Graph}
    (hrun : Alongside S g k g' k') :
    (∀ x ∈ S, ∃ n, g'.node? x = some n ∧ k'.node? x = some n) ∧
      ∀ e : Edge, e.consumer ∈ S → (e ∈ k'.edges.edges ↔ e ∈ g'.edges.edges) := by
  have hedge : ∀ x i a, g.source? x i = some a → (⟨x, a⟩ : Edge) ∈ g.edges.edges := by
    intro x i a ha
    obtain rfl := hg.wired.indexed x i a ha
    exact (hg.wired.edge_iff ⟨x, a⟩).mpr ha
  have hstart : Agree S g k := by
    refine ⟨hg.wired, hk.wired, fun x hx => ?_, fun x hx i a ha => ?_, fun x hx i a ha => ?_,
      hclock⟩
    · obtain ⟨n, hn, hn'⟩ := hnode x hx
      rw [hn, hn']
    · exact hclosed ⟨x, a⟩ (hedge x i a ha) hx
    · exact horder ⟨x, a⟩ (hedge x i a ha) hx
  have hresting : Resting S g := by
    intro x hx
    obtain ⟨n, hn, -⟩ := hnode x hx
    exact ⟨n, hn, hidle x hx n hn⟩
  obtain ⟨hagree, hpresent⟩ := hstart.alongside hresting hrun
  refine ⟨fun x hx => ?_, fun e he => hagree.edges he⟩
  obtain ⟨n, hn, -⟩ := hpresent x hx
  exact ⟨n, hn, (hagree.node x hx).trans hn⟩

/-- The constant and the display of `colorFirst` and of `colorLast`. -/
def shownConstant : Set NodeId := {x | x = ⟨0⟩ ∨ x = ⟨2⟩}

instance (x : NodeId) : Decidable (x ∈ shownConstant) :=
  inferInstanceAs (Decidable (x = ⟨0⟩ ∨ x = ⟨2⟩))

end Patchbay.Graph

/-! ## With the standard engine -/

namespace Patchbay.Graph

/-- The first graph gets a sum, which the constant feeds, and the second one loses its colour,
before each of two frames. -/
theorem node?_of_alongside_color :
    colorFirst.Reachable ∧ colorLast.Reachable ∧
      ∀ x ∈ shownConstant, ∃ n,
        (((colorFirst.run [.create .math, .connect ⟨0⟩ 0 ⟨1⟩ 0]).step Poll.none 1).tick
          Poll.none 5).node? x = some n ∧
        (((colorLast.step Poll.none 1).run [.remove ⟨6⟩]).tick Poll.none 5).node? x = some n := by
  have hfirst : colorFirst.Reachable := ⟨_, _, rfl⟩
  have hlast : colorLast.Reachable := ⟨_, _, rfl⟩
  have hcreate : (colorFirst.createNode .math).1 ∉ shownConstant := by decide
  have hconnect : (⟨1⟩ : NodeId) ∉ shownConstant := by decide
  have hremove : (⟨6⟩ : NodeId) ∉ shownConstant := by decide
  have hrun : Alongside shownConstant colorFirst colorLast _ _ :=
    .tick Poll.none Poll.none 5 (.right (.remove ⟨6⟩) (.step Poll.none Poll.none 1
      (.left (.connect ⟨0⟩ 0 ⟨1⟩ 0) (.left (.create .math) .start hcreate) hconnect)) hremove)
  have hnode : ∀ x ∈ shownConstant, ∃ n, colorFirst.node? x = some n ∧
      colorLast.node? x = some n := by
    rintro x (rfl | rfl)
    · exact ⟨_, rfl, rfl⟩
    · exact ⟨_, rfl, rfl⟩
  have hidle : ∀ x ∈ shownConstant, ∀ n, colorFirst.node? x = some n → n.behavior.idle = true := by
    rintro x (rfl | rfl) n hn
    · cases hn
      rfl
    · cases hn
      rfl
  have hsame := node?_of_alongside hfirst hlast hnode (by decide) (by decide) rfl hidle hrun
  exact ⟨hfirst, hlast, hsame.1⟩

end Patchbay.Graph
