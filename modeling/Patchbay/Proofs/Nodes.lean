import Patchbay.Graph.Frame
import Patchbay.Proofs.Turns
/-!
Finding nodes after an edit.

Wiring looks at a graph through two views: where an input reads from
(`Graph.source?`) and whether a node has an output (`Graph.HasOutput`).  This
module says what each edit of the list of nodes does to the node found under
an identity, and from it what it does to the two views.
-/

namespace Patchbay

variable [Formula.Engine]

theorem Node.source?_detach (n : Node) (i j : Nat) :
    (n.detach i).ports.source? j = if i = j then none else n.ports.source? j := by
  unfold Node.detach
  cases hp : n.ports.inputs[i]? with
  | some p => exact Directory.source?_detach n.ports i j
  | none =>
      by_cases h : i = j
      · subst h
        simp [Directory.source?, hp]
      · simp [h]

theorem Node.outputs_detach (n : Node) (i : Nat) : (n.detach i).ports.outputs = n.ports.outputs := by
  unfold Node.detach
  cases n.ports.inputs[i]? <;> rfl

theorem Node.inputNames_detach (n : Node) (i : Nat) :
    (n.detach i).ports.inputNames = n.ports.inputNames := by
  unfold Node.detach
  cases n.ports.inputs[i]? with
  | none => rfl
  | some p => exact n.ports.inputNames_detach i

theorem Node.id_detach (n : Node) (i : Nat) : (n.detach i).id = n.id := by
  unfold Node.detach
  cases n.ports.inputs[i]? <;> rfl

namespace Graph

/-! ## The node under an identity -/

/-- The first node of a list with an identity. -/
def nodeIn? (nodes : List Node) (id : NodeId) : Option Node := nodes.find? (·.id == id)

theorem nodeIn?_cons (n : Node) (nodes : List Node) (id : NodeId) :
    nodeIn? (n :: nodes) id = if n.id = id then some n else nodeIn? nodes id := by
  by_cases h : n.id = id
  · simp [nodeIn?, h]
  · simp [nodeIn?, h]

theorem nodeIn?_append (nodes nodes' : List Node) (id : NodeId) :
    nodeIn? (nodes ++ nodes') id = (nodeIn? nodes id).or (nodeIn? nodes' id) := by
  simp [nodeIn?, List.find?_append]

theorem id_of_nodeIn? {nodes : List Node} {id : NodeId} {n : Node}
    (h : nodeIn? nodes id = some n) : n.id = id := by
  simpa using List.find?_some h

theorem mem_of_nodeIn? {nodes : List Node} {id : NodeId} {n : Node}
    (h : nodeIn? nodes id = some n) : n ∈ nodes :=
  List.mem_of_find?_eq_some h

theorem nodeIn?_eq_none {nodes : List Node} {id : NodeId} :
    nodeIn? nodes id = none ↔ id ∉ nodes.map Node.id := by
  simp [nodeIn?]

theorem nodeIn?_of_mem {nodes : List Node} (hd : (nodes.map Node.id).Nodup) {n : Node}
    (h : n ∈ nodes) : nodeIn? nodes n.id = some n := by
  induction nodes with
  | nil => exact absurd h (by simp)
  | cons m nodes ih =>
      rw [List.map_cons, List.nodup_cons] at hd
      rw [nodeIn?_cons]
      rcases List.mem_cons.mp h with rfl | h
      · rw [if_pos rfl]
      · rw [if_neg, ih hd.2 h]
        intro heq
        exact hd.1 (heq ▸ List.mem_map_of_mem h)

theorem mem_ids_of_node? {g : Graph} {x : NodeId} {n : Node} (h : g.node? x = some n) :
    x ∈ g.ids :=
  List.mem_map.mpr ⟨n, mem_of_nodeIn? h, id_of_nodeIn? h⟩

theorem contains_iff {g : Graph} {id : NodeId} : g.contains id = true ↔ id ∈ g.ids := by
  simp [contains, ids]

/-! ## One node changed -/

/-- Whatever a change keeps of its node is kept of the list. -/
theorem map_changeNode {α : Type} {id : NodeId} {f : Node → Node} {π : Node → α}
    {nodes : List Node} (hf : ∀ n ∈ nodes, n.id = id → π (f n) = π n) :
    (changeNode id f nodes).map π = nodes.map π := by
  rw [changeNode, List.map_map]
  apply List.map_congr_left
  intro n hn
  by_cases h : n.id = id
  · simp [h, hf n hn h]
  · simp [h]

section Change
variable {id : NodeId} {f : Node → Node} (hf : ∀ n, n.id = id → (f n).id = id)
include hf

theorem map_id_changeNode (nodes : List Node) :
    (changeNode id f nodes).map Node.id = nodes.map Node.id :=
  map_changeNode fun n _ hn => (hf n hn).trans hn.symm

theorem nodeIn?_changeNode (nodes : List Node) (x : NodeId) :
    nodeIn? (changeNode id f nodes) x =
      if x = id then (nodeIn? nodes x).map f else nodeIn? nodes x := by
  induction nodes with
  | nil => simp [nodeIn?, changeNode]
  | cons n nodes ih =>
      have hcons : changeNode id f (n :: nodes) =
          (if n.id = id then f n else n) :: changeNode id f nodes := rfl
      rw [hcons, nodeIn?_cons, nodeIn?_cons, ih]
      by_cases hn : n.id = id
      · rw [if_pos hn, hf n hn]
        by_cases hx : x = id
        · simp [hx, hn]
        · simp [hx, hn, Ne.symm hx]
      · rw [if_neg hn]
        by_cases hx : x = id
        · simp [hx, hn]
        · simp [hx]

theorem ids_modifyNode (g : Graph) : (g.modifyNode id f).ids = g.ids :=
  map_id_changeNode hf g.nodes

theorem node?_modifyNode (g : Graph) (x : NodeId) :
    (g.modifyNode id f).node? x = if x = id then (g.node? x).map f else g.node? x :=
  nodeIn?_changeNode hf g.nodes x

end Change

theorem mem_changeNode {id : NodeId} {f : Node → Node} {nodes : List Node} {n : Node}
    (h : n ∈ changeNode id f nodes) : n ∈ nodes ∨ ∃ m ∈ nodes, m.id = id ∧ n = f m := by
  obtain ⟨m, hm, rfl⟩ := List.mem_map.mp h
  by_cases hid : m.id = id
  · rw [if_pos hid]
    exact Or.inr ⟨m, hm, hid, rfl⟩
  · rw [if_neg hid]
    exact Or.inl hm

/-! ## Nodes added and removed -/

/-- A new node is put between two parts of the list. -/
theorem insertByPriority_split (n : Node) (nodes : List Node) :
    ∃ front back, nodes = front ++ back ∧ insertByPriority n nodes = front ++ n :: back := by
  induction nodes with
  | nil => exact ⟨[], [], rfl, rfl⟩
  | cons m rest ih =>
      by_cases h : n.priority.before m.priority = true
      · exact ⟨[], m :: rest, rfl, by simp [insertByPriority, h]⟩
      · obtain ⟨front, back, hrest, hins⟩ := ih
        refine ⟨m :: front, back, by rw [hrest]; rfl, ?_⟩
        simp [insertByPriority, h, hins]

theorem mem_insertByPriority {n m : Node} {nodes : List Node} :
    m ∈ insertByPriority n nodes ↔ m = n ∨ m ∈ nodes := by
  obtain ⟨front, back, rfl, hins⟩ := insertByPriority_split n nodes
  rw [hins]
  simp only [List.mem_append, List.mem_cons]
  grind

theorem sublist_insertByPriority (n : Node) (nodes : List Node) :
    nodes.Sublist (insertByPriority n nodes) := by
  obtain ⟨front, back, rfl, hins⟩ := insertByPriority_split n nodes
  rw [hins]
  exact (List.Sublist.refl front).append (List.sublist_cons_self n back)

theorem nodup_insertByPriority {n : Node} {nodes : List Node} (hd : (nodes.map Node.id).Nodup)
    (hn : n.id ∉ nodes.map Node.id) : ((insertByPriority n nodes).map Node.id).Nodup := by
  obtain ⟨front, back, rfl, hins⟩ := insertByPriority_split n nodes
  rw [hins, List.map_append, List.map_cons, List.perm_middle.nodup_iff, ← List.map_append]
  exact List.nodup_cons.mpr ⟨hn, hd⟩

theorem nodeIn?_insertByPriority {n : Node} {nodes : List Node} (hn : n.id ∉ nodes.map Node.id)
    (x : NodeId) :
    nodeIn? (insertByPriority n nodes) x = if x = n.id then some n else nodeIn? nodes x := by
  obtain ⟨front, back, rfl, hins⟩ := insertByPriority_split n nodes
  rw [hins, nodeIn?_append, nodeIn?_append, nodeIn?_cons]
  by_cases hx : x = n.id
  · subst hx
    have hfront : nodeIn? front n.id = none := by
      rw [nodeIn?_eq_none]
      intro h
      exact hn (by rw [List.map_append]; exact List.mem_append_left _ h)
    simp [hfront]
  · simp [hx, Ne.symm hx]

theorem nodeIn?_filter (id : NodeId) (nodes : List Node) (x : NodeId) :
    nodeIn? (nodes.filter (·.id != id)) x = if x = id then none else nodeIn? nodes x := by
  induction nodes with
  | nil => simp [nodeIn?]
  | cons n nodes ih =>
      by_cases hn : n.id = id
      · rw [List.filter_cons_of_neg (by simp [hn]), ih, nodeIn?_cons]
        by_cases hx : x = id
        · simp [hx]
        · simp [hn, hx, Ne.symm hx]
      · rw [List.filter_cons_of_pos (by simp [hn]), nodeIn?_cons, nodeIn?_cons, ih]
        by_cases hx : x = id
        · simp [hn, hx]
        · simp [hx]

theorem detachAll_cons (e : Edge) (edges : List Edge) (nodes : List Node) :
    detachAll (e :: edges) nodes =
      detachAll edges (changeNode e.consumer (·.detach e.address.input.toNat) nodes) := rfl

/-- Whatever detaching keeps of a node is kept of the list. -/
theorem map_detachAll {α : Type} {π : Node → α} (hπ : ∀ n i, π (n.detach i) = π n)
    (edges : List Edge) (nodes : List Node) :
    (detachAll edges nodes).map π = nodes.map π := by
  induction edges generalizing nodes with
  | nil => rfl
  | cons e edges ih =>
      rw [detachAll_cons, ih]
      exact map_changeNode fun n _ _ => hπ n _

theorem map_id_detachAll (edges : List Edge) (nodes : List Node) :
    (detachAll edges nodes).map Node.id = nodes.map Node.id :=
  map_detachAll Node.id_detach edges nodes

/-- A node of which some inputs have been detached is related to the node it was. -/
theorem related_detachAll {R : Node → Node → Prop} (hrefl : ∀ n, R n n)
    (htrans : ∀ {n m k}, R n m → R m k → R n k) (hdetach : ∀ n i, R n (n.detach i))
    {edges : List Edge} {nodes : List Node} {x : NodeId} {m : Node}
    (h : nodeIn? (detachAll edges nodes) x = some m) :
    ∃ n, nodeIn? nodes x = some n ∧ R n m := by
  induction edges generalizing nodes with
  | nil => exact ⟨m, h, hrefl m⟩
  | cons e edges ih =>
      rw [detachAll_cons] at h
      obtain ⟨k, hk, hkm⟩ := ih h
      rw [nodeIn?_changeNode (fun n hn => (n.id_detach _).trans hn)] at hk
      split at hk
      · obtain ⟨n, hn, rfl⟩ := Option.map_eq_some_iff.mp hk
        exact ⟨n, hn, htrans (hdetach n _) hkm⟩
      · exact ⟨k, hk, hkm⟩

/-- A node of a graph from which another one has been removed is related to the node it was. -/
theorem related_removeNode {R : Node → Node → Prop} (hrefl : ∀ n, R n n)
    (htrans : ∀ {n m k}, R n m → R m k → R n k) (hdetach : ∀ n i, R n (n.detach i)) {g : Graph}
    {id x : NodeId} {m : Node} (h : (g.removeNode id).node? x = some m) :
    ∃ n, g.node? x = some n ∧ R n m := by
  unfold removeNode at h
  split at h
  · obtain ⟨n, hn, hnm⟩ := related_detachAll hrefl htrans hdetach h
    rw [nodeIn?_filter] at hn
    split at hn
    · exact nomatch hn
    · exact ⟨n, hn, hnm⟩
  · exact ⟨m, h, hrefl m⟩

/-- Whatever detaching keeps of a node is kept of every node. -/
theorem forall_detachAll {P : Node → Prop} (hP : ∀ n i, P n → P (n.detach i))
    (edges : List Edge) {nodes : List Node} (h : ∀ n ∈ nodes, P n) :
    ∀ n ∈ detachAll edges nodes, P n := by
  induction edges generalizing nodes with
  | nil => exact h
  | cons e edges ih =>
      rw [detachAll_cons]
      apply ih
      intro n hn
      rcases mem_changeNode hn with hn | ⟨m, hm, _, rfl⟩
      · exact h n hn
      · exact hP m _ (h m hm)

/-! ## Where inputs read from -/

/-- Where input number `i` of the node `c` reads from. -/
def source? (g : Graph) (c : NodeId) (i : Nat) : Option Address :=
  (g.node? c).bind (·.ports.source? i)

/-- Whether a node is there and has an output with a number. -/
def HasOutput (g : Graph) (id : NodeId) (o : Nat) : Prop :=
  ∃ n, g.node? id = some n ∧ o < n.ports.outputs.length

theorem source?_eq_some {g : Graph} {c : NodeId} {i : Nat} {a : Address} :
    g.source? c i = some a ↔ ∃ n, g.node? c = some n ∧ n.ports.source? i = some a := by
  simp [source?, Option.bind_eq_some_iff]

/-- The sources of a list of nodes in which some inputs have been detached. -/
theorem source?_detachAll {nodes : List Node} {edges : List Edge} {c : NodeId} {i : Nat}
    {a : Address} :
    ((nodeIn? (detachAll edges nodes) c).bind (·.ports.source? i)) = some a ↔
      ((nodeIn? nodes c).bind (·.ports.source? i)) = some a ∧
        ∀ e ∈ edges, ¬(e.consumer = c ∧ e.address.input.toNat = i) := by
  induction edges generalizing nodes with
  | nil => simp [detachAll]
  | cons e edges ih =>
      rw [detachAll_cons, ih, nodeIn?_changeNode (fun n hn => (n.id_detach _).trans hn)]
      simp only [List.forall_mem_cons]
      by_cases hc : c = e.consumer
      · subst hc
        cases nodeIn? nodes e.consumer with
        | none => simp
        | some n =>
            by_cases hi : e.address.input.toNat = i
            · simp [Node.source?_detach, hi]
            · simp [Node.source?_detach, hi]
      · simp [hc, Ne.symm hc]

theorem outputs_detachAll {nodes : List Node} {edges : List Edge} {id : NodeId} {n : Node}
    (h : nodeIn? nodes id = some n) :
    ∃ m, nodeIn? (detachAll edges nodes) id = some m ∧ m.ports.outputs = n.ports.outputs := by
  induction edges generalizing nodes n with
  | nil => exact ⟨n, h, rfl⟩
  | cons e edges ih =>
      rw [detachAll_cons]
      have hkeep : ∀ n : Node, n.id = e.consumer →
          (n.detach e.address.input.toNat).id = e.consumer := fun n hn => (n.id_detach _).trans hn
      have hstep := nodeIn?_changeNode hkeep nodes id
      rw [h] at hstep
      by_cases hid : id = e.consumer
      · rw [if_pos hid] at hstep
        obtain ⟨m, hm, hout⟩ := ih hstep
        exact ⟨m, hm, hout.trans (n.outputs_detach _)⟩
      · rw [if_neg hid] at hstep
        exact ih hstep

end Graph

end Patchbay
