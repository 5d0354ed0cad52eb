import Mathlib.Data.List.Nodup
import Mathlib.Data.List.Perm.Subperm
import Patchbay.Formula.Basic
import Patchbay.Proofs.RoundTrip
import Patchbay.Proofs.Wiring
/-!
Making a node costs no node.

Adding a node removes whatever has its identity, so that a new node is only
one more when its identity is free.  The counter of the context does not
promise that: nodes may have come with identities of another context, a
context may have been put in place of another, a scene sets the counter, and
behind the last identity every node gets the same one.  What makes up for it
is the search for a free identity, which has an end: of more identities than
there are nodes, one is free.
-/

namespace Patchbay.Graph

/-! ## Free identities -/

/-- The identity with a number. -/
def numbered (i : Nat) : NodeId := ⟨UInt32.ofNat i⟩

theorem toNat_numbered {i : Nat} (h : i < Context.idLimit) : (numbered i).val.toNat = i :=
  Nat.mod_eq_of_lt h

theorem numbered_toNat (id : NodeId) : numbered id.val.toNat = id :=
  congrArg NodeId.mk (UInt32.ofNat_toNat)

theorem nodup_numbered {count : Nat} (h : count ≤ Context.idLimit) :
    ((List.range count).map numbered).Nodup := by
  refine List.Nodup.map_on (fun i hi j hj heq => ?_) List.nodup_range
  have hi := toNat_numbered (Nat.lt_of_lt_of_le (List.mem_range.mp hi) h)
  have hj := toNat_numbered (Nat.lt_of_lt_of_le (List.mem_range.mp hj) h)
  rw [← hi, ← hj, heq]

variable [Formula.Engine]

section Free
variable {g : Graph} (h : g.nodes.length < Context.idLimit)
include h

/-- The nodes do not take all of as many identities as there are nodes and one more. -/
theorem exists_free : ∃ i ≤ g.nodes.length, numbered i ∉ g.ids := by
  by_contra hnone
  have htaken : (List.range (g.nodes.length + 1)).map numbered ⊆ g.ids := by
    intro id hid
    obtain ⟨i, hi, rfl⟩ := List.mem_map.mp hid
    by_contra hfree
    exact hnone ⟨i, Nat.lt_succ_iff.mp (List.mem_range.mp hi), hfree⟩
  have hlength := (List.subperm_of_subset (nodup_numbered h) htaken).length_le
  simp only [ids, List.length_map, List.length_range] at hlength
  omega

/-- The search finds the lowest free identity. -/
theorem freeId?_spec :
    ∃ id, g.freeId? = some id ∧ id ∉ g.ids ∧ ∀ x : NodeId, x.val < id.val → x ∈ g.ids := by
  obtain ⟨k, hk, hfree⟩ := exists_free h
  have hsearch : g.freeId? =
      ((List.range (g.nodes.length + 1)).find? fun i => !g.contains (numbered i)).map numbered := by
    rw [← Function.comp_def (fun id => !g.contains id) numbered, ← List.find?_map]
    rfl
  cases hfind : (List.range (g.nodes.length + 1)).find? fun i => !g.contains (numbered i) with
  | none =>
      have htaken := List.find?_range_eq_none.mp hfind k (Nat.lt_succ_iff.mpr hk)
      exact absurd (contains_iff.mp (by simpa using htaken)) hfree
  | some i =>
      obtain ⟨hi, hmem, hbelow⟩ := List.find?_range_eq_some.mp hfind
      refine ⟨numbered i, by rw [hsearch, hfind]; rfl, ?_, fun x hx => ?_⟩
      · rw [← contains_iff]
        simpa using hi
      · have hlimit : i < Context.idLimit := Nat.lt_of_lt_of_le (List.mem_range.mp hmem) h
        have hx : x.val.toNat < i := by
          have hlt := UInt32.lt_iff_toNat_lt.mp hx
          rw [toNat_numbered hlimit] at hlt
          exact hlt
        have htaken := hbelow x.val.toNat hx
        rw [numbered_toNat] at htaken
        exact contains_iff.mp (by simpa using htaken)

/-- The identity that is settled on is free: it is the wanted one, or the lowest free one when that
is taken. -/
theorem settleId_spec (wanted : NodeId) :
    g.settleId wanted ∉ g.ids ∧
      (wanted ∉ g.ids → g.settleId wanted = wanted) ∧
      (wanted ∈ g.ids → ∀ x : NodeId, x.val < (g.settleId wanted).val → x ∈ g.ids) := by
  unfold settleId
  by_cases hwanted : wanted ∈ g.ids
  · obtain ⟨id, hid, hfree, hbelow⟩ := freeId?_spec h
    rw [if_pos (contains_iff.mpr hwanted), hid]
    exact ⟨hfree, fun hnot => absurd hwanted hnot, fun _ => hbelow⟩
  · rw [if_neg fun hmem => hwanted (contains_iff.mp hmem)]
    exact ⟨hwanted, fun _ => rfl, fun hmem => absurd hmem hwanted⟩

end Free

/-! ## One node more -/

/-- The graph has got a node of a free identity, between others that it had; what any input reads
from, the table and all other nodes are as they were. -/
structure Gains (g g' : Graph) (n : Node) : Prop where
  free : n.id ∉ g.ids
  name : g'.name = g.name
  nodes : ∃ front back, g.nodes = front ++ back ∧ g'.nodes = front ++ n :: back
  node : ∀ x, g'.node? x = if x = n.id then some n else g.node? x
  edges : g'.edges = g.edges
  source : ∀ c i, g'.source? c i = g.source? c i

/-- A node without sources is one more where its identity is free. -/
theorem gains_addNode {g : Graph} {n : Node} (hfree : n.id ∉ g.ids) (hn : n.ports.Loose) :
    g.Gains (g.addNode n) n := by
  rw [addNode_eq, removeNode_of_not_mem hfree]
  exact {
    free := hfree
    name := rfl
    nodes := insertByPriority_split n g.nodes
    node := node?_inserted hfree
    edges := rfl
    source := fun c i => Option.ext fun a => source?_inserted hfree hn }

/-- Creating a node costs no node.  The graph gets a node of the type under the identity that is
returned, which was free, and keeps all that it had.  The identity is the one that the counter
gives, and when that is taken the lowest free one. -/
theorem createNode_gains {g : Graph} (h : g.nodes.length < Context.idLimit) (t : NodeType) :
    ∃ n, (g.createNode t).1 = n.id ∧ n.type = t ∧ g.Gains (g.createNode t).2 n ∧
      ((Node.create t g.context).1.id ∉ g.ids → n.id = (Node.create t g.context).1.id) ∧
      ((Node.create t g.context).1.id ∈ g.ids → ∀ x : NodeId, x.val < n.id.val → x ∈ g.ids) := by
  obtain ⟨hfree, hwanted, hlowest⟩ := settleId_spec h (Node.create t g.context).1.id
  have hfresh := Node.fresh_create t g.context (g.createNode t).1
  refine ⟨{ (Node.create t g.context).1 with id := (g.createNode t).1 }, rfl, hfresh.type, ?_,
    hwanted, hlowest⟩
  -- Only the context of the graph has changed before the node is added.
  have hgains : Gains { g with context := (Node.create t g.context).2 } (g.createNode t).2 _ :=
    gains_addNode hfree hfresh.loose
  exact { hgains with }

end Patchbay.Graph

/-! ## With the standard engine -/

namespace Patchbay.Graph

/-- Two sums that were made when no identity was left, the second with the lowest free one. -/
def crowded : Graph :=
  run [.use { Context.new with nextId := 0xfffffffe }, .create .math, .create .math,
    .connect ⟨0⟩ 0 .unallocated 1] (empty "crowded")

/-- A display gets the next free identity, although the counter still gives the one of the first
sum, and the edge between the sums stays. -/
theorem createNode_gains_of_crowded :
    crowded.Reachable ∧ crowded.nodes.length < Context.idLimit ∧
      (Node.create .display crowded.context).1.id ∈ crowded.ids ∧
      (crowded.createNode .display).1 = ⟨1⟩ ∧
      ∃ n, n.id = ⟨1⟩ ∧ crowded.Gains (crowded.createNode .display).2 n ∧
        (crowded.createNode .display).2.edges.edges = [⟨.unallocated, ⟨⟨0⟩, 0, 1⟩⟩] := by
  have hlength : crowded.nodes.length < Context.idLimit := by decide +kernel
  have htaken : (Node.create .display crowded.context).1.id ∈ crowded.ids := by decide +kernel
  have hid : (crowded.createNode .display).1 = ⟨1⟩ := by decide +kernel
  obtain ⟨n, hn, -, hgains, -⟩ := createNode_gains hlength .display
  refine ⟨⟨_, _, rfl⟩, hlength, htaken, hid, n, hn.symm.trans hid, hgains, ?_⟩
  exact (congrArg EdgeTable.edges hgains.edges).trans (by decide +kernel)

end Patchbay.Graph
