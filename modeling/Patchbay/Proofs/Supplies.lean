import Patchbay.Proofs.Wiring
/-!
What a node reads, and what its turn leaves on its outputs.

A node sees the others through a window, by positions that are noted when its
turn begins.  That shows it the cells of the nodes that its sources name
(`Graph.supplyOf_eq`), and nothing else here depends on the positions.  Within
its turn a node reads cells of other nodes, so what it finds on an input is
what the graph shows there right after the turn
(`Graph.Wired.readings_cell`).  A turn clears the flags of the node's own
cells and then posts: a cell that is not flagged afterwards holds what it
held before.
-/

namespace Patchbay

namespace Directory

/-! ## Inputs by name -/

theorem inputIndex?_eq (d : Directory) (name : String) :
    d.inputIndex? name = d.inputNames.findIdx? (· == name) := by
  rw [inputIndex?, inputNames, List.findIdx?_map]
  rfl

theorem inputIndex?_congr {d d' : Directory} (h : d'.inputNames = d.inputNames) (name : String) :
    d'.inputIndex? name = d.inputIndex? name := by
  rw [inputIndex?_eq, inputIndex?_eq, h]

theorem name_of_inputIndex? {d : Directory} {name : String} {i : Nat}
    (h : d.inputIndex? name = some i) : ∃ p, d.inputs[i]? = some p ∧ p.name = name := by
  obtain ⟨hi, hname, -⟩ := List.findIdx?_eq_some_iff_getElem.mp h
  exact ⟨d.inputs[i], List.getElem?_eq_getElem hi, by simpa using hname⟩

theorem isConnected_eq (d : Directory) (i : Nat) :
    d.inputs[i]?.any InputPort.isConnected = (d.source? i).isSome := by
  unfold source?
  cases d.inputs[i]? <;> rfl

/-! ## Cells -/

theorem cell?_modifyCell (d : Directory) (i j : Nat) (f : Cell → Cell) :
    (d.modifyCell i f).cell? j = if i = j then (d.cell? j).map f else d.cell? j := by
  simp only [cell?, modifyCell, List.getElem?_modify]
  by_cases h : i = j
  · rw [if_pos h]
    cases d.outputs[j]? <;> simp [h]
  · rw [if_neg h]
    cases d.outputs[j]? <;> simp [h]

theorem cell?_clearDirty (d : Directory) (j : Nat) :
    d.clearDirty.cell? j = (d.cell? j).map Cell.clearDirty := by
  simp only [cell?, clearDirty, List.getElem?_map]
  cases d.outputs[j]? <;> rfl

theorem cell?_congr {d d' : Directory} (h : d'.outputs = d.outputs) (j : Nat) :
    d'.cell? j = d.cell? j := by
  rw [cell?, cell?, h]

end Directory

/-- Whether a cell counts is a matter of its value. -/
theorem Cell.value_filter (o : Option Cell) :
    (o.filter fun c => !c.value.isEmpty).map Cell.value =
      (o.map Cell.value).filter fun v => !v.isEmpty := by
  rw [Option.filter_map]
  rfl

/-- What is read depends on the inputs alone. -/
theorem Supply.named?_congr (supply : Supply) {d d' : Directory} (h : d'.inputs = d.inputs)
    (name : String) : supply.named? d' name = supply.named? d name := by
  have hat : supply.at? d' = supply.at? d := by
    funext i
    rw [at?, at?, h]
  rw [named?, named?, hat, Directory.inputIndex?, Directory.inputIndex?, h]

/-- A cell that is flagged, or else holds what another one holds. -/
def Cell.Follows (old new : Cell) : Prop := new.dirty = true ∨ new.value = old.value

theorem Cell.follows_publish (c : Cell) (v : Value) : c.Follows (c.publish v) := by
  unfold Cell.publish
  by_cases h : c.value.same v = true
  · rw [if_pos h]
    exact Or.inr rfl
  · rw [if_neg h]
    exact Or.inl rfl

theorem Cell.Follows.trans {c c' c'' : Cell} (h : c.Follows c')
    (h' : c'.dirty = true → c''.dirty = true) (hv : c'.Follows c'') : c.Follows c'' := by
  rcases hv with hd | hv
  · exact Or.inl hd
  · rcases h with hd | h
    · exact Or.inl (h' hd)
    · exact Or.inr (hv.trans h)

namespace Directory

/-- A post changes no cell without flagging it, and takes no flag away. -/
theorem cell?_post (d : Directory) (p : Post) {j : Nat} {c' : Cell}
    (h : (d.post p).cell? j = some c') :
    ∃ c, d.cell? j = some c ∧ c.Follows c' ∧ (c.dirty = true → c'.dirty = true) := by
  cases p with
  | publish i v =>
      have hcell := cell?_modifyCell d i j (·.publish v)
      change (d.modifyCell i (·.publish v)).cell? j = some c' at h
      rw [hcell] at h
      split at h
      · obtain ⟨c, hc, rfl⟩ := Option.map_eq_some_iff.mp h
        refine ⟨c, hc, c.follows_publish v, fun hd => ?_⟩
        unfold Cell.publish
        split
        · exact hd
        · rfl
      · exact ⟨c', h, Or.inr rfl, id⟩
  | write i v =>
      have hcell := cell?_modifyCell d i j (·.set v)
      change (d.modifyCell i (·.set v)).cell? j = some c' at h
      rw [hcell] at h
      split at h
      · obtain ⟨c, hc, rfl⟩ := Option.map_eq_some_iff.mp h
        exact ⟨c, hc, Or.inl rfl, fun _ => rfl⟩
      · exact ⟨c', h, Or.inr rfl, id⟩

theorem cell?_posts (posts : List Post) {d : Directory} {j : Nat} {c' : Cell}
    (h : (posts.foldl post d).cell? j = some c') :
    ∃ c, d.cell? j = some c ∧ c.Follows c' ∧ (c.dirty = true → c'.dirty = true) := by
  induction posts generalizing d with
  | nil => exact ⟨c', h, Or.inr rfl, id⟩
  | cons p posts ih =>
      obtain ⟨c₁, hc₁, hf₁, hd₁⟩ := ih h
      obtain ⟨c, hc, hf, hd⟩ := cell?_post d p hc₁
      exact ⟨c, hc, hf.trans hd₁ hf₁, fun hdirty => hd₁ (hd hdirty)⟩

end Directory

variable [Formula.Engine]

namespace Node

/-- After a turn a cell is flagged or holds what it held before. -/
theorem cell?_takeTurn (now : Moment) (supply : Supply) {n : Node} (hn : n.ports.Indexed) {j : Nat}
    {c' : Cell} (h : (n.takeTurn now supply).1.ports.cell? j = some c') :
    ∃ c, n.ports.cell? j = some c ∧ c.Follows c' := by
  rw [takeTurn_node] at h
  obtain ⟨c₁, hc₁, hf, -⟩ := Directory.cell?_posts _ h
  rw [Directory.cell?_congr (heldTurn_keeps now supply hn).outputs, Directory.cell?_clearDirty] at hc₁
  obtain ⟨c, hc, rfl⟩ := Option.map_eq_some_iff.mp hc₁
  exact ⟨c, hc, hf⟩

/-- The first cell before the posts of a turn. -/
theorem cell?_heldTurn (now : Moment) (supply : Supply) {n : Node} (hn : n.ports.Indexed) (j : Nat) :
    (n.heldTurn now supply).ports.cell? j = (n.ports.cell? j).map Cell.clearDirty := by
  rw [Directory.cell?_congr (heldTurn_keeps now supply hn).outputs, Directory.cell?_clearDirty]

/-- Until a turn posts something the first output shows what it did before. -/
theorem firstValue?_heldTurn {now : Moment} {supply : Supply} {n : Node} (hn : n.ports.Indexed) :
    (n.heldTurn now supply).ports.firstValue? = n.ports.firstValue? := by
  rw [Directory.firstValue?, cell?_heldTurn now supply hn, Option.map_map]
  rfl

/-! ## Sources by name -/

/-- Where the input of a name reads from. -/
def sourceNamed? (n : Node) (name : String) : Option Address :=
  (n.ports.inputIndex? name).bind n.ports.source?

theorem sourceNamed?_eq_some {n : Node} {name : String} {a : Address} :
    n.sourceNamed? name = some a ↔ ∃ i, n.ports.inputIndex? name = some i ∧ n.ports.source? i = some a :=
  Option.bind_eq_some_iff

theorem sourceNamed?_congr {n m : Node} (hnames : m.ports.inputNames = n.ports.inputNames)
    (hsource : ∀ i, m.ports.source? i = n.ports.source? i) (name : String) :
    m.sourceNamed? name = n.sourceNamed? name := by
  rw [sourceNamed?, sourceNamed?, Directory.inputIndex?_congr hnames, funext hsource]

/-- What a turn reads under a name, by the ports that it leaves. -/
theorem cell_readings (now : Moment) (supply : Supply) (n : Node) (name : String) :
    (n.readings now supply).cell name = supply.named? (n.takeTurn now supply).1.ports name :=
  (supply.named?_congr (takeTurn_inputs now supply n) name).symm

/-- Under a name without a source nothing is read. -/
theorem cell_of_sourceNamed? {now : Moment} {supply : Supply} {n : Node} {name : String}
    (h : (n.takeTurn now supply).1.sourceNamed? name = none) :
    (n.readings now supply).cell name = none := by
  rw [cell_readings, Supply.named?]
  unfold sourceNamed? at h
  cases hi : (n.takeTurn now supply).1.ports.inputIndex? name with
  | none => rfl
  | some i =>
      rw [hi, Option.bind_some] at h
      rw [Option.bind_some, Supply.at?, Directory.isConnected_eq, h]
      rfl

end Node

namespace Graph

/-! ## Cells by address -/

/-- The cell that an address stands for. -/
def cellOf? (g : Graph) (a : Address) : Option Cell :=
  (g.node? a.producer).bind (·.ports.cell? a.output.toNat)

theorem cellOf?_eq_some {g : Graph} {a : Address} {c : Cell} :
    g.cellOf? a = some c ↔
      ∃ n, g.node? a.producer = some n ∧ n.ports.cell? a.output.toNat = some c := by
  simp [cellOf?, Option.bind_eq_some_iff]

theorem HasOutput.exists_cellOf? {g : Graph} {a : Address}
    (h : g.HasOutput a.producer a.output.toNat) : ∃ c, g.cellOf? a = some c := by
  obtain ⟨p, hp, ho⟩ := h
  refine ⟨p.ports.outputs[a.output.toNat].cell, cellOf?_eq_some.mpr ⟨p, hp, ?_⟩⟩
  rw [Directory.cell?, List.getElem?_eq_getElem ho]
  rfl

/-- A change of one node that leaves its outputs alone leaves every cell as it is. -/
theorem cellOf?_change {g g' : Graph} {id : NodeId} {f : Node → Node}
    (hnode : ∀ x, g'.node? x = if x = id then (g.node? x).map f else g.node? x)
    (hf : ∀ n, (f n).ports.outputs = n.ports.outputs) (a : Address) :
    g'.cellOf? a = g.cellOf? a := by
  rw [cellOf?, hnode, cellOf?]
  split
  · cases g.node? a.producer with
    | none => rfl
    | some p => exact Directory.cell?_congr (hf p) _
  · rfl

/-- The cell that an address stands for in a list of nodes; a node does not read itself. -/
def cellAt? (nodes : List Node) (reader : NodeId) (a : Address) : Option Cell :=
  if a.producer = reader then none
  else (nodes.find? (·.id == a.producer)).bind fun n => n.ports.cell? a.output.toNat

theorem cellAt?_of_ne {g : Graph} {a : Address} {reader : NodeId} (h : a.producer ≠ reader) :
    cellAt? g.nodes reader a = g.cellOf? a :=
  if_neg h

/-- The cell that the input of a given name shows; an empty one does not count. -/
def reading? (g : Graph) (n : Node) (name : String) : Option Cell :=
  (n.ports.inputIndex? name).bind fun i =>
    (n.ports.source? i).bind fun a => (g.cellOf? a).filter fun c => !c.value.isEmpty

theorem reading?_eq_some {g : Graph} {n : Node} {name : String} {c : Cell} :
    g.reading? n name = some c ↔
      ∃ i a, n.ports.inputIndex? name = some i ∧ n.ports.source? i = some a ∧
        g.cellOf? a = some c ∧ c.value.isEmpty = false := by
  simp [reading?, Option.bind_eq_some_iff, Option.filter_eq_some_iff]

theorem reading?_eq (g : Graph) (n : Node) (name : String) :
    g.reading? n name =
      (n.sourceNamed? name).bind fun a => (g.cellOf? a).filter fun c => !c.value.isEmpty :=
  (Option.bind_assoc _ _ _).symm

/-! ## Cells in a window -/

/-- The node under an identity stands at the first position with that identity. -/
theorem nodeIn?_eq_getElem? (nodes : List Node) (id : NodeId) :
    nodeIn? nodes id = (nodes.findIdx? (·.id == id)).bind fun place => nodes[place]? := by
  induction nodes with
  | nil => rfl
  | cons n nodes ih =>
      rw [nodeIn?_cons, List.findIdx?_cons]
      by_cases h : n.id = id
      · rw [if_pos h, if_pos (beq_iff_eq.mpr h)]
        rfl
      · rw [if_neg h, if_neg (mt beq_iff_eq.mp h), ih, Option.bind_map]
        rfl

theorem id_of_findIdx {nodes : List Node} {k : Nat} {id : NodeId} (hlt : k < nodes.length)
    (hk : nodes.findIdx (·.id == id) = k) : nodes[k].id = id := by
  subst hk
  have hfound := List.findIdx_getElem (p := fun n : Node => n.id == id) (w := hlt)
  exact beq_iff_eq.mp hfound

namespace Window
variable {nodes : List Node} {inputs : List InputPort} {k : Nat}

/-- Behind its own node a window is shifted by one, and so shows at every other position what
stands there in the whole list. -/
theorem node?_around (hk : k ≤ nodes.length) (place : Nat) :
    (around nodes k inputs).node? place = if place = k then none else nodes[place]? := by
  have hlength : (around nodes k inputs).before.length = k := List.length_take_of_le hk
  rw [node?, hlength]
  by_cases hbefore : place < k
  · rw [if_pos hbefore, if_neg (Nat.ne_of_lt hbefore)]
    exact List.getElem?_take_of_lt hbefore
  by_cases hown : place = k
  · rw [if_neg hbefore, if_pos hown, if_pos hown]
  · have hback : k + 1 + (place - (k + 1)) = place := by omega
    rw [if_neg hbefore, if_neg hown, if_neg hown]
    exact List.getElem?_drop.trans (congrArg (nodes[·]?) hback)

/-- For an input with a source the position that is noted is the one of the source's producer. -/
theorem upstream_around {i : Nat} {a : Address}
    (ha : (inputs[i]?.bind InputPort.source) = some a) :
    (around nodes k inputs).upstream[i]?.bind id = nodes.findIdx? (·.id == a.producer) := by
  obtain ⟨p, hp, hsource⟩ := Option.bind_eq_some_iff.mp ha
  simp only [around, List.getElem?_map, hp, Option.map_some, Option.bind_some, hsource, id]

/-- On an input whose source it was when the window was opened, an address stands for the cell
that it stands for in the whole list.  A producer that is not found by its position is not there. -/
theorem cell?_around {reader : NodeId} (hk : k = nodes.findIdx (·.id == reader)) {i : Nat}
    {a : Address} (ha : (inputs[i]?.bind InputPort.source) = some a) :
    (around nodes k inputs).cell? i a = cellAt? nodes reader a := by
  have hbound : k ≤ nodes.length := hk ▸ List.findIdx_le_length
  rw [cell?, upstream_around ha, cellAt?]
  cases hplace : nodes.findIdx? (·.id == a.producer) with
  | none =>
      have habsent : nodes.find? (·.id == a.producer) = none :=
        (nodeIn?_eq_getElem? nodes a.producer).trans (by rw [hplace]; rfl)
      rw [habsent, Option.bind_none, Option.bind_none, Option.bind_none, ite_self]
  | some place =>
      have hstands : nodes.find? (·.id == a.producer) = nodes[place]? := by
        refine (nodeIn?_eq_getElem? nodes a.producer).trans ?_
        rw [hplace, Option.bind_some]
      have hown : place = k ↔ a.producer = reader := by
        obtain ⟨hlt, hfirst⟩ := List.findIdx?_eq_some_iff_findIdx_eq.mp hplace
        constructor
        · rintro rfl
          exact (id_of_findIdx hlt hfirst).symm.trans (id_of_findIdx hlt hk.symm)
        · rintro rfl
          exact hfirst.symm.trans hk.symm
      rw [Option.bind_some, node?_around hbound, hstands]
      by_cases hself : a.producer = reader
      · rw [if_pos (hown.mpr hself), if_pos hself]
        rfl
      · rw [if_neg fun h => hself (hown.mp h), if_neg hself]
        refine Option.bind_congr fun n hn => ?_
        rw [if_pos (id_of_nodeIn? (hstands.trans hn))]

end Window

/-- What is supplied to a node are the cells that its sources stand for. -/
theorem supplyOf_eq (nodes : List Node) (n : Node) :
    supplyOf nodes n = n.ports.inputs.map fun p => p.source.bind (cellAt? nodes n.id) := by
  refine List.ext_getElem? fun i => ?_
  rw [supplyOf, Window.supply, List.getElem?_mapIdx, List.getElem?_map]
  cases hp : n.ports.inputs[i]? with
  | none => rfl
  | some p =>
      cases ha : p.source with
      | none => simp only [Option.map_some, ha, Option.bind_none]
      | some a =>
          have hsource : n.ports.inputs[i]?.bind InputPort.source = some a := by
            rw [hp]
            exact ha
          simp only [Option.map_some, ha, Option.bind_some, Window.cell?_around rfl hsource]

/-- What is supplied to an input is the cell at its source. -/
theorem supplied (nodes : List Node) (n : Node) (i : Nat) :
    (supplyOf nodes n)[i]?.bind id = (n.ports.source? i).bind (cellAt? nodes n.id) := by
  rw [supplyOf_eq, Directory.source?, List.getElem?_map]
  cases n.ports.inputs[i]? <;> rfl

/-- What an input of a node in its turn is given: the cell that the turn finds at its source. -/
theorem supply_at? (nodes : List Node) {n : Node} {d : Directory} {i : Nat}
    (hd : ∀ a, d.source? i = some a → n.ports.source? i = some a) :
    Supply.at? (supplyOf nodes n) d i =
      (d.source? i).bind fun a => (cellAt? nodes n.id a).filter fun c => !c.value.isEmpty := by
  unfold Supply.at?
  rw [Directory.isConnected_eq, supplied]
  cases hs : d.source? i with
  | none => rfl
  | some a =>
      rw [hd a hs]
      rfl

/-- In a wired graph it is the cell that its source shows. -/
theorem Wired.supply_at? {g : Graph} (h : g.Wired) {id : NodeId} {n : Node}
    (hn : g.node? id = some n) {d : Directory} {i : Nat}
    (hd : ∀ a, d.source? i = some a → n.ports.source? i = some a) :
    Supply.at? (supplyOf g.nodes n) d i =
      (d.source? i).bind fun a => (g.cellOf? a).filter fun c => !c.value.isEmpty := by
  rw [Graph.supply_at? g.nodes hd]
  refine Option.bind_congr fun a ha => ?_
  have hapart : a.producer ≠ n.id := by
    rw [id_of_node? hn]
    exact h.apart id i a (source?_eq_some.mpr ⟨n, hn, hd a ha⟩)
  rw [cellAt?_of_ne hapart]

/-- What stays attached in a turn was attached before. -/
theorem source?_of_takeTurn {n : Node} (hn : n.ports.Indexed) (now : Moment) (supply : Supply)
    {i : Nat} {a : Address} (ha : (n.takeTurn now supply).1.ports.source? i = some a) :
    n.ports.source? i = some a :=
  ((Node.takeTurn_source_iff now supply hn i a).mp ha).1

/-- What a node reads in its turn: the cells that the turn finds at the sources it leaves. -/
theorem readings_cell (nodes : List Node) {n : Node} (hn : n.ports.Indexed) (now : Moment)
    (name : String) :
    (n.readings now (supplyOf nodes n)).cell name =
      ((n.takeTurn now (supplyOf nodes n)).1.sourceNamed? name).bind fun a =>
        (cellAt? nodes n.id a).filter fun c => !c.value.isEmpty := by
  rw [Node.cell_readings, Supply.named?, Node.sourceNamed?, Option.bind_assoc]
  refine Option.bind_congr fun i _ => ?_
  exact supply_at? nodes fun a ha => source?_of_takeTurn hn now _ ha

/-- The cells of other nodes are the same before and after a turn. -/
theorem cellOf?_runNode {g : Graph} {id : NodeId} {n : Node} (hn : g.node? id = some n)
    (now : Moment) {a : Address} (ha : a.producer ≠ id) :
    (runNode now g id).cellOf? a = g.cellOf? a := by
  rw [cellOf?, node?_runNode hn, if_neg ha]
  rfl

/-- A node in its turn reads what the graph shows on its inputs right afterwards. -/
theorem Wired.readings_cell {g : Graph} (h : g.Wired) {id : NodeId} {n : Node}
    (hn : g.node? id = some n) (now : Moment) (name : String) :
    (n.readings now (supplyOf g.nodes n)).cell name =
      (runNode now g id).reading? (n.takeTurn now (supplyOf g.nodes n)).1 name := by
  rw [Graph.readings_cell g.nodes (h.ports_indexed hn), reading?_eq]
  refine Option.bind_congr fun a ha => ?_
  obtain ⟨i, -, hs⟩ := Node.sourceNamed?_eq_some.mp ha
  have hbefore := source?_of_takeTurn (h.ports_indexed hn) now _ hs
  have hapart : a.producer ≠ id := h.apart id i a (source?_eq_some.mpr ⟨n, hn, hbefore⟩)
  rw [cellOf?_runNode hn now hapart, cellAt?_of_ne (id_of_node? hn ▸ hapart)]

end Graph

end Patchbay
