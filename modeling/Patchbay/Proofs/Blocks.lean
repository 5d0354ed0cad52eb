import Patchbay.Scene.Block
import Patchbay.Proofs.Fields
import Patchbay.Proofs.Reading
/-!
Nodes come back from their blocks.

Reading a block fills a new node of the type, and what has been filled in is
`Node.reloaded`: the node without its sources, with every output marked as
written.  The condition is that the counts in the block can count: the names
of the inputs have four bytes for theirs, everything else eight.
-/

namespace Patchbay

open Bytes BlockReader

namespace Block

/-! ## Following a filler -/

namespace Filler

variable [Formula.Engine] {α β : Type}

/-- In front of the given bytes the node is filled, and the reader moves behind them. -/
def Fills (f : Filler α) (n : Node) (bytes : List UInt8) (a : α) (n' : Node) : Prop :=
  ∀ (b : Buffer) (rest : List UInt8), b.unread = bytes ++ rest →
    ∃ b', f (b, n) = .ok a (b', n') ∧ b'.unread = rest

theorem fills_pure (a : α) (n : Node) : Fills (pure a) n [] a n := by
  intro b rest h
  exact ⟨b, rfl, h⟩

theorem fills_change (f : Node → Node) (n : Node) : Fills (change f) n [] () (f n) := by
  intro b rest h
  exact ⟨b, rfl, h⟩

theorem fills_read {r : BlockReader α} {bytes : List UInt8} {a : α} (h : Reads r bytes a)
    (n : Node) : Fills (read r) n bytes a n := by
  intro b rest hb
  obtain ⟨b', hb', hrest⟩ := h b rest hb
  exact ⟨b', by simp only [read, hb'], hrest⟩

theorem Fills.bind {f : Filler α} {g : α → Filler β} {x y : List UInt8} {n n₁ n₂ : Node} {a : α}
    {c : β} (hf : Fills f n x a n₁) (hg : Fills (g a) n₁ y c n₂) :
    Fills (f >>= g) n (x ++ y) c n₂ := by
  intro b rest h
  rw [List.append_assoc] at h
  obtain ⟨b₁, hb₁, hrest₁⟩ := hf b (y ++ rest) h
  obtain ⟨b₂, hb₂, hrest₂⟩ := hg b₁ rest hrest₁
  refine ⟨b₂, ?_, hrest₂⟩
  simp only [Bind.bind, EStateM.bind, hb₁]
  exact hb₂

/-- A step that uses no bytes. -/
theorem Fills.after {f : Filler α} {g : α → Filler β} {y : List UInt8} {n n₁ n₂ : Node} {a : α}
    {c : β} (hf : Fills f n [] a n₁) (hg : Fills (g a) n₁ y c n₂) : Fills (f >>= g) n y c n₂ :=
  hf.bind hg

theorem fills_node {g : Node → Filler β} {n n' : Node} {y : List UInt8} {c : β}
    (hg : Fills (g n) n y c n') : Fills (node >>= g) n y c n' := by
  intro b rest h
  exact hg b rest h

/-- A part is read and put into the node. -/
theorem fills_part {r : BlockReader α} {f : α → Node → Node} {k : Filler β} {x y : List UInt8}
    {n n' : Node} {a : α} {c : β} (hr : Reads r x a) (hk : Fills k (f a n) y c n') :
    Fills (read r >>= fun a => change (f a) >>= fun _ => k) n (x ++ y) c n' :=
  (fills_read hr n).bind ((fills_change (f a) n).after hk)

/-- What is done after the last part uses no bytes. -/
theorem Fills.last {f : Filler α} {g : α → Filler β} {x : List UInt8} {n n₁ n₂ : Node} {a : α}
    {c : β} (hf : Fills f n x a n₁) (hg : Fills (g a) n₁ [] c n₂) : Fills (f >>= g) n x c n₂ := by
  have hbind : Fills (f >>= g) n (x ++ []) c n₂ := hf.bind hg
  rw [List.append_nil] at hbind
  exact hbind

end Filler

open Filler Wire

/-! ## The parts of a block -/

theorem fixed_nodeId : nodeIdWire.Fixed 4 := fixed_u32.viaMap fun _ => rfl

theorem reads_names {names : List String} (hcount : names.length < limit 4)
    (hsize : (names.flatMap text.put).length < sizeLimit) :
    readNames.Reads (inputNamesBytes names) names := by
  have hnat : (UInt32.ofNat names.length).toNat = names.length :=
    UInt32.toNat_ofNat_of_lt' hcount
  have hname : ∀ name ∈ names, readName.Reads (text.put name) name := by
    intro name hmem
    refine reads_field (faithful_text name ?_)
    exact Nat.lt_of_le_of_lt (length_le_of_mem text.put hmem) hsize
  unfold readNames inputNamesBytes
  refine (reads_field (fixed_u32.exact _)).bind ?_
  rw [hnat]
  exact reads_many hname

theorem length_edgeBytes (e : Edge) : (edgeBytes e).length = 6 := by
  simp [edgeBytes, fixed_u8.length_put, fixed_nodeId.length_put]

theorem reads_edge (e : Edge) : (readEdge e.producer).Reads (edgeBytes e) e := by
  unfold readEdge edgeBytes
  rw [List.append_assoc]
  refine (reads_field (fixed_u8.exact _)).bind ?_
  refine (reads_field (fixed_u8.exact _)).bind ?_
  exact (reads_field (fixed_nodeId.exact _)).last (reads_pure e)

theorem reads_edges {edges : List Edge} {producer : NodeId} (h : ∀ e ∈ edges, e.producer = producer)
    (hsize : (edgesBytes edges).length < sizeLimit) :
    (readEdges producer).Reads (edgesBytes edges) edges := by
  have hcount : edges.length < sizeLimit := by
    have hle := length_le_flatMap (fun e => Nat.lt_of_lt_of_eq (by decide) (length_edgeBytes e).symm)
      edges
    simp only [edgesBytes, List.length_append] at hsize
    omega
  have hnat : (UInt64.ofNat edges.length).toNat = edges.length := UInt64.toNat_ofNat_of_lt' hcount
  unfold readEdges edgesBytes
  refine (reads_field (fixed_u64.exact _)).bind ?_
  rw [hnat]
  refine reads_many fun e he => ?_
  rw [← h e he]
  exact reads_edge e

theorem kindOf_value (v : Value) (index : Nat) (id : NodeId) :
    kindOf index id v.isArray v.kind.isList v.kind.tag = .ok v.kind := by
  unfold kindOf
  rw [Kind.ofTag?_tag]
  exact if_pos ⟨rfl, rfl⟩

theorem reads_output {o : OutputPort} (h : (outputBytes o).length < sizeLimit) (index : Nat)
    (id : NodeId) : (readOutput index id).Reads (outputBytes o) o.cell.value := by
  have hsize : o.cell.value.toBytes.length < sizeLimit := by
    simp only [outputBytes, List.length_append] at h
    omega
  have hnat : (UInt64.ofNat o.cell.value.toBytes.length).toNat = o.cell.value.toBytes.length :=
    UInt64.toNat_ofNat_of_lt' hsize
  have hvalue : (Value.ofBytes o.cell.value.kind o.cell.value.toBytes).mapError SceneError.value =
      .ok o.cell.value := by
    rw [Value.ofBytes_toBytes hsize]
    rfl
  unfold readOutput outputBytes
  simp only [List.append_assoc]
  refine (reads_field (fixed_u64.exact _)).bind ?_
  refine (reads_field (fixed_flag.exact _)).bind ?_
  refine (reads_field (fixed_flag.exact _)).bind ?_
  refine (reads_field (fixed_u8.exact _)).bind ?_
  refine Reads.bind (x := []) (reads_ofExcept (kindOf_value o.cell.value index id)) ?_
  rw [hnat]
  exact (reads_take rfl).last (reads_ofExcept hvalue)

/-! ## Outputs one after the other -/

/-- An output with another value, marked as written. -/
def rewritten (p o : OutputPort) : OutputPort := ⟨p.name, p.cell.set o.cell.value⟩

theorem modify_append_length {α : Type} (before : List α) (a : α) (after : List α) (f : α → α) :
    (before ++ a :: after).modify before.length f = before ++ f a :: after := by
  induction before with
  | nil => rfl
  | cons b before ih => exact congrArg (b :: ·) ih

theorem zipWith_rewritten {ps os : List OutputPort}
    (h : ps.map OutputPort.name = os.map OutputPort.name) :
    ps.zipWith rewritten os = os.map fun o => ⟨o.name, o.cell.markDirty⟩ := by
  induction ps generalizing os with
  | nil =>
      have hos : os = [] := by simpa using h.symm
      rw [hos]
      rfl
  | cons p ps ih =>
      cases os with
      | nil => exact absurd h (by simp)
      | cons o os =>
          simp only [List.map_cons, List.cons.injEq] at h
          rw [List.zipWith_cons_cons, List.map_cons, ih h.2, rewritten, h.1]
          rfl

variable [Formula.Engine]

/-- A node with values written to its outputs from a number on. -/
def setOutputs (index : Nat) : List OutputPort → Node → Node
  | [], m => m
  | o :: os, m =>
    setOutputs (index + 1) os { m with ports := m.ports.modifyCell index (·.set o.cell.value) }

theorem fills_readOutputs {os : List OutputPort}
    (h : (os.flatMap outputBytes).length < sizeLimit) (index : Nat) (m : Node) :
    Fills (readOutputs index os.length) m (os.flatMap outputBytes) () (setOutputs index os m) := by
  induction os generalizing index m with
  | nil => exact fills_pure () m
  | cons o os ih =>
      simp only [List.flatMap_cons, List.length_append] at h
      rw [List.length_cons, List.flatMap_cons]
      unfold readOutputs
      exact fills_node (fills_part (reads_output (by omega) index m.id)
        (ih (by omega) (index + 1) _))

theorem setOutputs_eq {os : List OutputPort} {before after : List OutputPort} {m : Node}
    (h : m.ports.outputs = before ++ after) (hlength : after.length = os.length) :
    setOutputs before.length os m =
      { m with ports := { m.ports with outputs := before ++ after.zipWith rewritten os } } := by
  induction os generalizing before after m with
  | nil =>
      have hafter : after = [] := List.length_eq_zero_iff.mp hlength
      subst hafter
      show m = _
      simp only [List.zipWith_nil_right]
      rw [← h]
  | cons o os ih =>
      cases after with
      | nil => exact absurd hlength (by simp)
      | cons p after =>
          have hstep : (m.ports.modifyCell before.length (·.set o.cell.value)).outputs =
              (before ++ [rewritten p o]) ++ after := by
            show m.ports.outputs.modify before.length _ = _
            rw [h, modify_append_length, List.append_assoc]
            rfl
          have hnext : ∀ m' : Node, m'.ports.outputs = (before ++ [rewritten p o]) ++ after →
              setOutputs (before.length + 1) os m' = { m' with ports := { m'.ports with
                outputs := before ++ (p :: after).zipWith rewritten (o :: os) } } := by
            intro m' hm'
            have hrest := ih hm' (Nat.succ.inj hlength)
            rw [List.length_append, List.append_assoc] at hrest
            exact hrest
          exact hnext _ hstep

/-! ## The whole block -/

/-- The bytes of the identity, the name, the class and the inputs. -/
def headBytes (n : Node) : List UInt8 :=
  nodeIdWire.put n.id ++ text.put n.name ++ u8.put n.priority.tag ++
    inputNamesBytes n.ports.inputNames ++ single.put n.ports.inputPadding ++
    single.put n.ports.outputPadding

/-- A node with the identity, the name, the class and the inputs of another one. -/
def headed (n m : Node) : Node :=
  setPaddings n.ports.inputPadding n.ports.outputPadding
    { m with
      id := n.id, name := n.name, priority := n.priority
      ports := (m.ports.setInputs n.ports.inputNames).1 }

theorem fills_readHead {n : Node} (hname : Text.isBlankText n.name = false)
    (hsize : (headBytes n).length < sizeLimit) (hcount : n.ports.inputs.length < limit 4)
    (m : Node) : Fills readHead m (headBytes n) () (headed n m) := by
  have hnames : n.ports.inputNames.length < limit 4 := by
    rw [Directory.inputNames, List.length_map]
    exact hcount
  simp only [headBytes, inputNamesBytes, List.length_append] at hsize
  have hrenamed : ({ m with id := n.id } : Node).renamed n.name =
      { m with id := n.id, name := n.name } := by
    rw [Node.renamed_eq, hname]
    rfl
  unfold readHead headBytes
  simp only [List.append_assoc]
  refine fills_part (reads_field (fixed_nodeId.exact n.id)) ?_
  refine fills_part (reads_field (faithful_text n.name (by omega))) ?_
  rw [hrenamed]
  refine fills_part (reads_choice Priority.ofTag?_tag n.priority) ?_
  refine fills_part (reads_names hnames (by omega)) ?_
  refine (fills_read (reads_field (fixed_single.exact _)) _).bind ?_
  refine (fills_read (reads_field (fixed_single.exact _)) _).last ?_
  exact fills_change _ _

theorem fills_readGeometry (n m : Node) :
    Fills readGeometry m (vec2Bytes n.geometry.position ++ vec2Bytes n.geometry.size) ()
      { m with geometry := n.geometry } := by
  unfold readGeometry vec2Bytes
  refine fills_part (reads_field (Value.fixed_vec2.exact n.geometry.position)) ?_
  refine (fills_read (reads_field (Value.fixed_vec2.exact n.geometry.size)) _).last ?_
  exact fills_change _ _

end Block

/-- The node after it has been saved and loaded, before anything is connected. -/
def Node.reloaded [Formula.Engine] (n : Node) : Node :=
  { n with
    ports := { n.ports with
      inputs := n.ports.inputNames.map InputPort.fresh
      outputs := n.ports.outputs.map fun o => ⟨o.name, o.cell.markDirty⟩ }
    behavior := n.behavior.reloaded }

namespace Block

open Filler Wire

variable [Formula.Engine]

theorem write_eq (n : Node) (es : List Edge) :
    write n es =
      headBytes n ++ (edgesBytes es ++ (n.ports.outputs.flatMap outputBytes ++
        (n.behavior.put ++ (vec2Bytes n.geometry.position ++ vec2Bytes n.geometry.size)))) := by
  simp only [write, headBytes, List.append_assoc]

/-- A new node of the type of `n` is filled from the block of `n` to what a load leaves of it. -/
theorem fills_read_write {n : Node} (hn : n.Sound) {es : List Edge}
    (hes : ∀ e ∈ es, e.producer = n.id) (hsize : (write n es).length < sizeLimit)
    (hcount : n.ports.inputs.length < limit 4) {fresh : Node} {names : List String}
    (htype : fresh.type = n.type) (hinputs : fresh.ports.inputs = names.map InputPort.fresh)
    (houtputs : fresh.ports.outputNames = n.type.outputNames) :
    Fills Block.read fresh (write n es) es n.reloaded := by
  rw [write_eq] at hsize ⊢
  simp only [List.length_append] at hsize
  have hnames : fresh.ports.outputs.map OutputPort.name = n.ports.outputs.map OutputPort.name :=
    houtputs.trans hn.outputs.symm
  have hlength : fresh.ports.outputs.length = n.ports.outputs.length := by
    have := congrArg List.length hnames
    simpa using this
  have hset : ∀ m : Node, m.ports.outputs = fresh.ports.outputs →
      setOutputs 0 n.ports.outputs m = { m with ports := { m.ports with
        outputs := n.ports.outputs.map fun o => ⟨o.name, o.cell.markDirty⟩ } } := by
    intro m hm
    have hstart : m.ports.outputs = [] ++ fresh.ports.outputs := hm
    have hset := setOutputs_eq hstart hlength
    rw [zipWith_rewritten hnames] at hset
    exact hset
  unfold Block.read
  refine (fills_readHead hn.named (by omega) hcount fresh).bind ?_
  refine fills_node ?_
  refine (fills_read (reads_edges hes (by omega)) _).bind ?_
  refine fills_node ?_
  have hcountOutputs : (headed n fresh).ports.outputs.length = n.ports.outputs.length := hlength
  rw [hcountOutputs]
  refine (fills_readOutputs (by omega) 0 _).bind ?_
  rw [hset (headed n fresh) rfl]
  refine fills_node ?_
  have hget := Behavior.reads_get (b := n.behavior) (by omega)
  rw [show n.behavior.type = fresh.type from htype.symm] at hget
  refine fills_part hget ?_
  refine (fills_readGeometry n _).last ?_
  have hports : (fresh.ports.setInputs n.ports.inputNames).1.inputs =
      n.ports.inputNames.map InputPort.fresh := by
    show Directory.renamed fresh.ports.inputs n.ports.inputNames = _
    rw [hinputs, Directory.renamed_fresh]
  have hnode : ({ headed n fresh with
      ports := { (headed n fresh).ports with
        outputs := n.ports.outputs.map fun o => ⟨o.name, o.cell.markDirty⟩ }
      behavior := n.behavior.reloaded
      geometry := n.geometry } : Node) = n.reloaded := by
    unfold headed setPaddings Node.reloaded
    simp only [hports]
  have hpure := fills_pure es n.reloaded
  rw [← hnode] at hpure ⊢
  exact hpure

end Block

end Patchbay
