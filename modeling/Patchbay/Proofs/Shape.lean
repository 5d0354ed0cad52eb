import Patchbay.Proofs.Wiring
/-!
The order of the nodes, and what each of them has.

The nodes of a graph stand in the order of their classes, and each has the
outputs of its type and a name that is not blank.  Both hold also after a
load of bytes that name other classes: a node is put where its class
belongs, and no field of a scene can change the outputs.
-/

namespace Patchbay

theorem Priority.before_self (p : Priority) : p.before p = false := by
  cases p <;> decide

theorem Priority.not_before_of_before {p q r : Priority} (hpq : p.before q = true)
    (hrq : r.before q = false) : r.before p = false := by
  revert hpq hrq
  cases p <;> cases q <;> cases r <;> decide

theorem Priority.before_trans {p q r : Priority} (hpq : p.before q = true)
    (hqr : q.before r = true) : p.before r = true := by
  revert hpq hqr
  cases p <;> cases q <;> cases r <;> decide

theorem Priority.eq_of_not_before {p q : Priority} (hpq : p.before q = false)
    (hqp : q.before p = false) : p = q := by
  revert hpq hqp
  cases p <;> cases q <;> decide

variable [Formula.Engine]

theorem Node.priority_detach (n : Node) (i : Nat) : (n.detach i).priority = n.priority := by
  unfold Node.detach
  cases n.ports.inputs[i]? <;> rfl

theorem Node.type_detach (n : Node) (i : Nat) : (n.detach i).type = n.type := by
  unfold Node.detach
  cases n.ports.inputs[i]? with
  | none => rfl
  | some p => exact Behavior.type_disconnected p.name n.behavior

theorem Node.name_detach (n : Node) (i : Nat) : (n.detach i).name = n.name := by
  unfold Node.detach
  cases n.ports.inputs[i]? <;> rfl

theorem Node.Sound.detach {n : Node} (h : n.Sound) (i : Nat) : (n.detach i).Sound where
  outputs := by
    rw [n.type_detach, Directory.outputNames, n.outputs_detach]
    exact h.outputs
  named := by
    rw [n.name_detach]
    exact h.named
  countable := by
    rw [n.type_detach, ← Directory.length_inputNames, n.inputNames_detach,
      Directory.length_inputNames]
    exact h.countable

/-- Only a list ever asks for more than three inputs. -/
theorem Behavior.length_inputs_plan {b : Behavior} (hb : b.type ≠ .list) (now : Moment)
    (id : NodeId) {names : List String} (h : (b.plan now id).inputs = some names) :
    names.length ≤ 3 := by
  cases b with
  | list s => exact absurd rfl hb
  | function s =>
      obtain ⟨r, -, rfl⟩ := Option.map_eq_some_iff.mp h
      cases r <;> decide
  | camera s =>
      change (if s.switched.mode = s.mode then none else some s.switched.mode.inputNames) =
        some names at h
      split at h
      · exact nomatch h
      · cases h
        exact Nat.le_succ 2
  | path s =>
      change (if s.switched.mode = s.mode then none else some s.switched.mode.inputNames) =
        some names at h
      split at h
      · exact nomatch h
      · cases h
        cases s.switched.mode <;> decide
  | value s =>
      change s.plan.inputs = some names at h
      unfold Constant.plan at h
      split at h <;> exact nomatch h
  | _ => exact nomatch h

theorem Node.Sound.takeTurn {n : Node} (h : n.Sound) (hn : n.ports.Indexed) (now : Moment)
    (supply : Supply) : (n.takeTurn now supply).1.Sound where
  outputs := by
    rw [Node.takeTurn_outputNames now supply hn, Node.takeTurn_type]
    exact h.outputs
  named := by
    rw [Node.takeTurn_name]
    exact h.named
  countable := by
    rw [Node.takeTurn_type, ← Directory.length_inputNames, Node.takeTurn_inputNames]
    intro hlist
    cases hinputs : (n.plan now).inputs with
    | none =>
        rw [Option.getD_none, Directory.length_inputNames]
        exact h.countable hlist
    | some names =>
        have hfew : names.length ≤ 3 := Behavior.length_inputs_plan hlist now n.id hinputs
        exact Nat.lt_of_le_of_lt hfew (by decide)

namespace Graph

/-- Whether the classes of a list of nodes never go down. -/
def Sorted (nodes : List Node) : Prop :=
  (nodes.map Node.priority).Pairwise fun p q => q.before p = false

theorem sorted_insertByPriority {n : Node} {nodes : List Node} (h : Sorted nodes) :
    Sorted (insertByPriority n nodes) := by
  induction nodes with
  | nil => simp [Sorted, insertByPriority]
  | cons m rest ih =>
      obtain ⟨hm, hrest⟩ := List.pairwise_cons.mp h
      by_cases hb : n.priority.before m.priority = true
      · rw [insertByPriority, if_pos hb]
        refine List.pairwise_cons.mpr ⟨fun p hp => ?_, h⟩
        rcases List.mem_cons.mp hp with rfl | hp
        · exact Priority.not_before_of_before hb (Priority.before_self _)
        · exact Priority.not_before_of_before hb (hm p hp)
      · rw [insertByPriority, if_neg hb]
        refine List.pairwise_cons.mpr ⟨fun p hp => ?_, ih hrest⟩
        obtain ⟨x, hx, rfl⟩ := List.mem_map.mp hp
        rcases mem_insertByPriority.mp hx with rfl | hx
        · simpa using hb
        · exact hm _ (List.mem_map_of_mem hx)

/-- Behind nodes of its class or of earlier ones a node is put at the end. -/
theorem insertByPriority_last {n : Node} {nodes : List Node}
    (h : ∀ m ∈ nodes, n.priority.before m.priority = false) :
    insertByPriority n nodes = nodes ++ [n] := by
  induction nodes with
  | nil => rfl
  | cons m rest ih =>
      rw [insertByPriority, if_neg (by simp [h m]), ih fun x hx => h x (by simp [hx])]
      rfl

theorem sorted_removeNode {g : Graph} (h : Sorted g.nodes) (id : NodeId) :
    Sorted (g.removeNode id).nodes := by
  unfold removeNode
  split
  · show List.Pairwise _ ((detachAll _ _).map Node.priority)
    rw [map_detachAll Node.priority_detach]
    exact h.sublist (List.filter_sublist.map _)
  · exact h

/-- Whatever detaching keeps of a node is kept of those that stay when one is removed. -/
theorem forall_removeNode {P : Node → Prop} (hP : ∀ n i, P n → P (n.detach i)) {g : Graph}
    (id : NodeId) (h : ∀ n ∈ g.nodes, P n) : ∀ n ∈ (g.removeNode id).nodes, P n := by
  unfold removeNode
  split
  · exact forall_detachAll hP _ fun n hn => h n (List.mem_filter.mp hn).1
  · exact h

/-- The order stays when a node keeps its class. -/
theorem sorted_modifyNode {g : Graph} {id : NodeId} {f : Node → Node} (h : Sorted g.nodes)
    (hf : ∀ n ∈ g.nodes, n.id = id → (f n).priority = n.priority) :
    Sorted (g.modifyNode id f).nodes := by
  show List.Pairwise _ ((changeNode id f g.nodes).map Node.priority)
  rw [map_changeNode hf]
  exact h

/-- What holds of the nodes of every graph; `turns` is the order of their next turns. -/
structure Shaped (turns : List NodeId) (g : Graph) : Prop where
  turns : turns.Perm g.ids
  sound : ∀ n ∈ g.nodes, n.Sound
  sorted : Sorted g.nodes

/-- The node whose turn is next is there. -/
theorem Shaped.exists_next {g : Graph} {id : NodeId} {rest : List NodeId}
    (h : Shaped (id :: rest) g) : ∃ n, g.node? id = some n := by
  have hmem : id ∈ g.ids := h.turns.mem_iff.mp (by simp)
  cases hnode : g.node? id with
  | none => exact absurd hmem (nodeIn?_eq_none.mp hnode)
  | some n => exact ⟨n, rfl⟩

/-- Changes of one node that keep its identity, its class and its soundness. -/
theorem Shaped.modify {g : Graph} {turns : List NodeId} {id : NodeId} {f : Node → Node}
    (h : Shaped turns g) (hid : ∀ n, n.id = id → (f n).id = n.id)
    (hpriority : ∀ n ∈ g.nodes, n.id = id → (f n).priority = n.priority)
    (hsound : ∀ n ∈ g.nodes, n.id = id → (f n).Sound) : Shaped turns (g.modifyNode id f) where
  turns := by
    rw [ids_modifyNode fun n hn => (hid n hn).trans hn]
    exact h.turns
  sound n hn := by
    rcases mem_changeNode hn with hn | ⟨m, hm, hmid, rfl⟩
    · exact h.sound n hn
    · exact hsound m hm hmid
  sorted := sorted_modifyNode h.sorted hpriority

theorem Shaped.context {g : Graph} {turns : List NodeId} (h : Shaped turns g) (c : Context) :
    Shaped turns { g with context := c } :=
  ⟨h.turns, h.sound, h.sorted⟩

theorem Shaped.edges {g : Graph} {turns : List NodeId} (h : Shaped turns g) (t : EdgeTable) :
    Shaped turns { g with edges := t } :=
  ⟨h.turns, h.sound, h.sorted⟩

theorem Shaped.remove {g : Graph} (h : Shaped g.ids g) (id : NodeId) :
    Shaped (g.removeNode id).ids (g.removeNode id) :=
  ⟨List.Perm.refl _, forall_removeNode (fun _ i hn => hn.detach i) id h.sound,
    sorted_removeNode h.sorted id⟩

theorem sound_attachedNode {n : Node} (h : n.Sound) (e : Edge) (source : Node) (o : OutputPort)
    (i : InputPort) : (attachedNode e source o i n).Sound where
  outputs := by
    rw [type_attachedNode, Directory.outputNames, outputs_attachedNode]
    exact h.outputs
  named := by
    rw [name_attachedNode]
    exact h.named
  countable := by
    rw [type_attachedNode, ← Directory.length_inputNames, inputNames_attachedNode,
      Directory.length_inputNames]
    exact h.countable

/-- The nodes and the turns of a frame keep the shape of a wired graph. -/
theorem shaped_invariant : Invariant (fun _ g => g.Wired) Shaped where
  blank name c := ⟨List.Perm.nil, by simp, List.Pairwise.nil⟩
  context c _ h := h.context c
  remove id _ h := h.remove id
  insert _ h _ hn := by
    refine ⟨List.Perm.refl _, fun m hm => ?_, sorted_insertByPriority h.sorted⟩
    rcases mem_insertByPriority.mp hm with rfl | hm
    · exact hn.sound
    · exact h.sound m hm
  attach {g e source target o i} _ h _ := by
    rw [ids_attached, attached_eq]
    refine (h.modify ?_ ?_ fun n hn _ => sound_attachedNode (h.sound n hn) e source o i).edges _
    · exact fun n _ => id_attachedNode e source o i n
    · exact fun n _ _ => priority_attachedNode e source o i n
  disconnect {g e g' consumer input} _ h hd := by
    obtain ⟨slot, rfl, _, _, rfl⟩ := disconnect_eq_some hd
    change Shaped (g.detached consumer slot).ids (g.detached consumer slot)
    rw [ids_detached]
    refine (h.modify ?_ ?_ fun n hn _ => (h.sound n hn).detach _).edges _
    · exact fun n _ => n.id_detach _
    · exact fun n _ _ => n.priority_detach _
  set {g} id s _ h := by
    rw [ids_set]
    refine h.modify ?_ ?_ fun n hn _ => s.sound_onNode (h.sound n hn)
    · exact fun n _ => s.id_onNode n
    · exact fun n _ _ => s.priority_onNode n
  turn {g id rest} now hw h := by
    have hturns : (rest ++ [id]).Perm (runNode now g id).ids := by
      rw [ids_runNode]
      exact (List.perm_append_singleton id rest).trans h.turns
    cases hn : g.node? id with
    | none =>
        rw [runNode_of_none hn] at hturns ⊢
        exact ⟨hturns, h.sound, h.sorted⟩
    | some n =>
        have hmem := mem_of_nodeIn? hn
        have hkeep : Shaped (id :: rest) (runNode now g id) := by
          rw [runNode_eq hn]
          refine (h.modify ?_ ?_ fun _ _ _ => ?_).edges _
          · intro m hm
            rw [Node.takeTurn_id, id_of_node? hn, hm]
          · intro m hm hmid
            have hsame := nodeIn?_of_mem hw.nodup hm
            rw [hmid] at hsame
            cases hsame.symm.trans hn
            exact Node.takeTurn_priority now _ n
          · exact (h.sound n hmem).takeTurn (hw.ports_indexed hn) now _
        exact ⟨hturns, hkeep.sound, hkeep.sorted⟩

end Graph

end Patchbay
