import Patchbay.Formula.Basic
import Patchbay.Proofs.Resumption
/-!
What becomes of a node that is taken out and put back.

Removing a node takes every edge at it from the table, and the sources from
the inputs that it fed.  The inputs of the node itself are not touched: it is
handed over with the sources it had, and added again it brings them along,
without edges.  So the wiring agrees after the return of a node exactly when
none of its inputs had a source; otherwise the node is supplied through them
as before, while the table no longer knows of it.
-/

namespace Patchbay.Graph

/-! ## Frames attach nothing -/

variable [Formula.Engine]

theorem Wired.turns {g : Graph} (h : g.Wired) (now : Moment) (turns : List NodeId) :
    (turns.foldl (runNode now) g).Wired ∧
      ∀ c i a, (turns.foldl (runNode now) g).source? c i = some a → g.source? c i = some a := by
  induction turns generalizing g with
  | nil => exact ⟨h, fun c i a ha => ha⟩
  | cons id turns ih =>
      obtain ⟨hwired, hsource⟩ := ih (h.turn now id)
      refine ⟨hwired, fun c i a ha => ?_⟩
      have hturn : (runNode now g id).source? c i = some a := hsource c i a ha
      cases hn : g.node? id with
      | none =>
          rw [runNode_of_none hn] at hturn
          exact hturn
      | some n => exact ((h.source?_runNode hn now).mp hturn).1

theorem Wired.withClock {g : Graph} (h : g.Wired) (f : Clock → Clock) : (g.withClock f).Wired :=
  ⟨h.nodup, h.edge_iff, h.indexed, h.apart, h.producer⟩

/-- Frames keep the wiring in agreement and attach nothing. -/
theorem Wired.runFrames {g : Graph} (h : g.Wired) (frames : List Frame) :
    (g.runFrames frames).Wired ∧
      ∀ c i a, (g.runFrames frames).source? c i = some a → g.source? c i = some a := by
  induction frames generalizing g with
  | nil => exact ⟨h, fun c i a ha => ha⟩
  | cons f frames ih =>
      have hframe : (f.apply g).Wired ∧
          ∀ c i a, (f.apply g).source? c i = some a → g.source? c i = some a := by
        obtain ⟨poll, clock, hframe⟩ := f.apply_eq
        rw [hframe]
        exact (h.withClock clock).turns _ _
      obtain ⟨hwired, hsource⟩ := ih hframe.1
      exact ⟨hwired, fun c i a ha => hframe.2 c i a (hsource c i a ha)⟩

/-! ## The node comes back -/

/-- The outputs of other nodes show the same after a node is removed. -/
theorem cellOf?_removeNode {g : Graph} {id : NodeId} {a : Address} (ha : a.producer ≠ id) :
    (g.removeNode id).cellOf? a = g.cellOf? a := by
  unfold cellOf?
  cases hn : g.node? a.producer with
  | some m =>
      obtain ⟨m', hm', hout⟩ := node?_removeNode ha hn
      rw [hm']
      exact Directory.cell?_congr hout _
  | none =>
      have hnone : (g.removeNode id).node? a.producer = none := by
        refine nodeIn?_eq_none.mpr fun hmem => nodeIn?_eq_none.mp hn ?_
        have hmem : a.producer ∈ (g.removeNode id).ids := hmem
        rw [ids_removeNode] at hmem
        exact (List.mem_filter.mp hmem).1
      rw [hnone]

section Return
variable {g k : Graph} {id : NodeId} {n : Node} (h : g.Wired) (htake : g.takeOut? id = some (n, k))
include htake

theorem takeOut?_eq_some : g.node? id = some n ∧ n.id = id ∧ k = g.removeNode id := by
  obtain ⟨m, hm, heq⟩ := Option.map_eq_some_iff.mp htake
  cases heq
  exact ⟨hm, id_of_node? hm, rfl⟩

/-- The identity of a node that was taken out is free. -/
theorem not_mem_ids_takeOut : n.id ∉ k.ids := by
  obtain ⟨-, hid, rfl⟩ := takeOut?_eq_some htake
  rw [hid]
  exact not_mem_ids_removeNode g id

theorem addNode_takeOut : k.addNode n = k.inserted n := by
  rw [addNode_eq, removeNode_of_not_mem (not_mem_ids_takeOut htake)]

include h

/-- The table does not get the edges at the node back. -/
theorem mem_edges_addNode_takeOut {e : Edge} :
    e ∈ (k.addNode n).edges.edges ↔ e ∈ g.edges.edges ∧ e.producer ≠ id ∧ e.consumer ≠ id := by
  rw [addNode_takeOut htake]
  obtain ⟨-, -, rfl⟩ := takeOut?_eq_some htake
  exact h.mem_edges_removeNode

/-- The inputs that the node fed stay without a source, and its own inputs keep theirs. -/
theorem source?_addNode_takeOut {c : NodeId} {i : Nat} {a : Address} :
    (k.addNode n).source? c i = some a ↔ g.source? c i = some a ∧ a.producer ≠ id := by
  have hfree := not_mem_ids_takeOut htake
  rw [addNode_takeOut htake, source?, node?_inserted hfree]
  obtain ⟨hn, hid, rfl⟩ := takeOut?_eq_some htake
  by_cases hc : c = id
  · have hown : g.source? c i = n.ports.source? i := by
      rw [source?, hc, hn]
      rfl
    rw [if_pos (hc.trans hid.symm), hown]
    refine ⟨fun ha => ⟨ha, ?_⟩, fun ha => ha.1⟩
    rw [← hc]
    exact h.apart c i a (hown.trans ha)
  · rw [if_neg fun heq => hc (heq.trans hid)]
    refine h.source?_removeNode.trans ?_
    simp [hc]

omit h in
/-- What the node reads after its return is what it read before it was taken out. -/
theorem supplyOf_addNode_takeOut : supplyOf (k.addNode n).nodes n = supplyOf g.nodes n := by
  have hfree := not_mem_ids_takeOut htake
  rw [addNode_takeOut htake]
  obtain ⟨-, hid, rfl⟩ := takeOut?_eq_some htake
  have hcell : cellAt? ((g.removeNode id).inserted n).nodes n.id = cellAt? g.nodes n.id := by
    funext a
    by_cases hself : a.producer = n.id
    · rw [cellAt?, cellAt?, if_pos hself, if_pos hself]
    · rw [cellAt?_of_ne hself, cellAt?_of_ne hself, cellOf?, node?_inserted hfree, if_neg hself]
      exact cellOf?_removeNode fun heq => hself (heq.trans hid.symm)
  rw [supplyOf_eq, supplyOf_eq, hcell]

theorem wired_addNode_takeOut (hnone : ∀ i, g.source? id i = none) : (k.addNode n).Wired := by
  have hfree := not_mem_ids_takeOut htake
  rw [addNode_takeOut htake]
  obtain ⟨hn, -, rfl⟩ := takeOut?_eq_some htake
  have hloose : n.ports.Loose := by
    intro i
    have hsource := hnone i
    rw [source?, hn] at hsource
    exact hsource
  exact (h.remove id).insert hfree hloose

/-- A source that the node brings along is not in the table. -/
theorem not_consistent_addNode_takeOut {i : Nat} {a : Address} (ha : g.source? id i = some a) :
    ¬(k.addNode n).Consistent := by
  intro hconsistent
  have hback : (k.addNode n).source? id i = some a :=
    (source?_addNode_takeOut h htake).mpr ⟨ha, h.apart id i a ha⟩
  obtain ⟨m, hm, hports⟩ := source?_eq_some.mp hback
  obtain ⟨p, hp, hpa⟩ := Directory.source?_eq_some.mp hports
  obtain ⟨-, hentry⟩ := hconsistent.port m (mem_of_nodeIn? hm) i p a hp hpa
  obtain ⟨hmem, -⟩ := EdgeTable.get?_eq_some.mp hentry
  obtain ⟨-, -, hne⟩ := (mem_edges_addNode_takeOut h htake).mp hmem
  exact hne (id_of_node? hm)

end Return

/-- After the return of a node the table lacks all edges at it, the inputs that it fed have no
source, and its own inputs have and read the sources they had.  So the table and the ports tell
the same exactly when its inputs had none, and then they do after whatever frames, in which its
inputs get none. -/
theorem wiring_after_return {g k : Graph} (h : g.Reachable) {id : NodeId} {n : Node}
    (htake : g.takeOut? id = some (n, k)) :
    (∀ e, e ∈ (k.addNode n).edges.edges ↔
        e ∈ g.edges.edges ∧ e.producer ≠ id ∧ e.consumer ≠ id) ∧
      (∀ c i a, (k.addNode n).source? c i = some a ↔
        g.source? c i = some a ∧ a.producer ≠ id) ∧
      supplyOf (k.addNode n).nodes n = supplyOf g.nodes n ∧
      ((k.addNode n).Consistent ↔ ∀ i, g.source? id i = none) ∧
      ((∀ i, g.source? id i = none) → ∀ frames : List Frame,
        ((k.addNode n).runFrames frames).Consistent ∧
          ∀ i, ((k.addNode n).runFrames frames).source? id i = none) := by
  have hw := h.wired
  refine ⟨fun e => mem_edges_addNode_takeOut hw htake,
    fun c i a => source?_addNode_takeOut hw htake, supplyOf_addNode_takeOut htake,
    ⟨fun hconsistent i => ?_, fun hnone => (wired_addNode_takeOut hw htake hnone).consistent⟩,
    fun hnone frames => ?_⟩
  · rw [Option.eq_none_iff_forall_ne_some]
    intro a ha
    exact not_consistent_addNode_takeOut hw htake ha hconsistent
  · obtain ⟨hwired, hsource⟩ := (wired_addNode_takeOut hw htake hnone).runFrames frames
    refine ⟨hwired.consistent, fun i => ?_⟩
    rw [Option.eq_none_iff_forall_ne_some]
    intro a ha
    have hold := ((source?_addNode_takeOut hw htake).mp (hsource id i a ha)).1
    rw [hnone i] at hold
    exact nomatch hold

end Patchbay.Graph

/-! ## With the standard engine -/

namespace Patchbay.Graph

/-- A constant that feeds a display, after a frame. -/
def watched : Graph :=
  run [.create .value, .create .display, .connect ⟨0⟩ 0 ⟨2⟩ 0, .step Poll.none 0] (empty "watched")

/-- The constant has no inputs, so its return leaves the wiring in agreement. -/
theorem wiring_after_return_of_constant :
    watched.Reachable ∧ ∃ n k, watched.takeOut? ⟨0⟩ = some (n, k) ∧ (k.addNode n).Consistent ∧
      ((k.addNode n).runFrames [.step Poll.none 1]).Consistent := by
  have hreachable : watched.Reachable := ⟨_, _, rfl⟩
  have hnone : ∀ i, watched.source? ⟨0⟩ i = none := fun i => rfl
  have htake : watched.takeOut? ⟨0⟩ = some (_, _) := rfl
  obtain ⟨-, -, -, hconsistent, hlater⟩ := wiring_after_return hreachable htake
  exact ⟨hreachable, _, _, htake, hconsistent.mpr hnone, (hlater hnone _).1⟩

/-- The display that was taken out and put back shows what the constant is changed to, and the
table has no edge. -/
theorem inconsistent_of_watched :
    watched.Reachable ∧ ∃ n k, watched.takeOut? ⟨2⟩ = some (n, k) ∧ ¬(k.addNode n).Consistent ∧
      (k.addNode n).edges.edges = [] ∧
      (((Action.set ⟨0⟩ (.constant (.float ⟨0x40a00000⟩))).apply (k.addNode n)).runFrames
        [.step Poll.none 1]).cellOf? ⟨⟨2⟩, 0, 0⟩ = some ⟨.float ⟨0x40a00000⟩, true⟩ := by
  have hreachable : watched.Reachable := ⟨_, _, rfl⟩
  have htake : watched.takeOut? ⟨2⟩ = some (_, _) := rfl
  have hattached : watched.source? ⟨2⟩ 0 = some ⟨⟨0⟩, 0, 0⟩ := by decide +kernel
  refine ⟨hreachable, _, _, htake, ?_, by decide +kernel, by decide +kernel⟩
  exact not_consistent_addNode_takeOut hreachable.wired htake hattached

end Patchbay.Graph
