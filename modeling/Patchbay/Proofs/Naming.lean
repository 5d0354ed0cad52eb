import Patchbay.Formula.Basic
import Patchbay.Graph.Summary
import Patchbay.Proofs.Sinks
/-!
Ports are known by their names.

A port is looked up as the first one of its name.  The inputs of a node
differ in their names because they are the ones that its state counts on,
and those differ: the inputs of a type or of a mode by inspection, those of
a list because names that are taken are skipped when its text is split.
While an edit of a list waits, its state counts on no inputs; it still has
the ones it had, so that they differ is a property of its own and carried
along (`Node.Labelled`).

An edge can be told by names when its ports are there.  For that only half
of the wiring matters, the half that also holds of nodes that are put back
with old sources: what the table lists, the ports confirm (`Graph.Backed`).
-/

namespace Patchbay

/-! ## Looking up by name -/

namespace Directory

variable {d : Directory}

/-- Where names differ an output is found under its name. -/
theorem outputIndex?_of_nodup (hd : d.outputNames.Nodup) {i : Nat} {o : OutputPort}
    (ho : d.outputs[i]? = some o) : d.outputIndex? o.name = some i := by
  obtain ⟨hi, rfl⟩ := List.getElem?_eq_some_iff.mp ho
  refine List.findIdx?_eq_some_iff_getElem.mpr ⟨hi, by simp, fun j hj hname => ?_⟩
  have hsame : d.outputs[j].name = d.outputs[i].name := by simpa using hname
  have hdiffer := List.pairwise_iff_getElem.mp hd j i (by simp [outputNames]; omega)
    (by simpa [outputNames] using hi) hj
  exact hdiffer (by simpa [outputNames] using hsame)

end Directory

theorem NodeType.nodup_outputNames (t : NodeType) : t.outputNames.Nodup := by
  cases t <;> decide

/-! ## Nodes whose inputs differ -/

variable [Formula.Engine]

namespace Node

/-- A node with inputs of different names, those that its state counts on. -/
structure Labelled (n : Node) : Prop where
  fits : n.Fits
  nodup : n.ports.inputNames.Nodup

variable {n : Node}

theorem Labelled.detach (h : n.Labelled) (i : Nat) : (n.detach i).Labelled where
  fits := fits_detach h.fits i
  nodup := by
    rw [n.inputNames_detach]
    exact h.nodup

theorem Labelled.attached (h : n.Labelled) (e : Edge) (source : Node) (o : OutputPort)
    (i : InputPort) : (Graph.attachedNode e source o i n).Labelled where
  fits := fits_attached h.fits e source o i
  nodup := by
    rw [Graph.inputNames_attachedNode]
    exact h.nodup

theorem Labelled.set (h : n.Labelled) (s : Setting) : (s.onNode n).Labelled where
  fits := fits_set h.fits s
  nodup := by
    rw [s.ports_onNode]
    exact h.nodup

/-- After a turn the inputs are the ones that the state counts on. -/
theorem Labelled.takeTurn (h : n.Labelled) (now : Moment) (supply : Supply) :
    (n.takeTurn now supply).1.Labelled where
  fits := fits_takeTurn now supply h.fits
  nodup := by
    rw [takeTurn_inputNames]
    exact Behavior.nodup_counted? (fits_takeTurn now supply h.fits).named
      (counted?_takeTurn now supply h.fits)

theorem labelled_create (t : NodeType) (c : Context) (id : NodeId) :
    Labelled { (create t c).1 with id } where
  fits := fits_create t c id
  nodup := by
    show (create t c).1.ports.inputNames.Nodup
    rw [inputNames_create]
    exact t.nodup_inputNames

theorem Labelled.reloaded (h : n.Labelled) : n.reloaded.Labelled where
  fits := fits_reloaded h.fits
  nodup := by
    rw [n.inputNames_reloaded]
    exact h.nodup

end Node

namespace Graph

/-! ## Edges whose ports are there -/

/-- The ports confirm an edge: its input reads from its address, where another node has an
output. -/
structure Confirms (g : Graph) (e : Edge) : Prop where
  source : g.source? e.consumer e.address.input.toNat = some e.address
  apart : e.producer ≠ e.consumer
  output : g.HasOutput e.producer e.address.output.toNat

/-- The ports confirm all edges of the table. -/
def Backed (g : Graph) : Prop := ∀ e ∈ g.edges.edges, g.Confirms e

variable {g : Graph}

/-- Inputs of other nodes keep the sources that no edge of the removed node feeds. -/
theorem source?_removeNode {id : NodeId} {e : Edge} (he : e ∈ g.edges.edges)
    (hp : e.producer ≠ id) (hc : e.consumer ≠ id)
    (h : g.source? e.consumer e.address.input.toNat = some e.address) :
    (g.removeNode id).source? e.consumer e.address.input.toNat = some e.address := by
  unfold removeNode
  split
  · refine source?_detachAll.mpr ⟨?_, fun x hx hslot => ?_⟩
    · rw [nodeIn?_filter, if_neg hc]
      exact h
    · obtain ⟨hmem, hid⟩ := EdgeTable.mem_outgoing.mp hx
      have hsame : x = e :=
        EdgeTable.eq_of_slot hmem he (Prod.ext hslot.1 (UInt8.toNat_inj.mp hslot.2))
      exact hp (hsame ▸ hid)
  · exact h

theorem Backed.remove (h : g.Backed) (id : NodeId) : (g.removeNode id).Backed := by
  intro e he
  have hkept : e ∈ g.edges.edges ∧ e.producer ≠ id ∧ e.consumer ≠ id := by
    unfold removeNode at he
    by_cases hid : g.contains id = true
    · rw [if_pos hid] at he
      exact EdgeTable.mem_removeNode.mp he
    · rw [if_neg hid] at he
      have hids : id ∉ g.ids := fun hmem => hid (contains_iff.mpr hmem)
      refine ⟨he, fun hp => hids (hp ▸ (h e he).output.mem_ids), fun hc => ?_⟩
      exact hids (hc ▸ mem_ids_of_source? (h e he).source)
  obtain ⟨hmem, hp, hc⟩ := hkept
  have hconfirms := h e hmem
  exact ⟨source?_removeNode hmem hp hc hconfirms.source, hconfirms.apart,
    hconfirms.output.removeNode hp⟩

theorem Backed.insert (h : g.Backed) {n : Node} (hid : n.id ∉ g.ids) : (g.inserted n).Backed := by
  intro e he
  have hconfirms := h e he
  refine ⟨?_, hconfirms.apart, hconfirms.output.inserted hid⟩
  have hc : e.consumer ≠ n.id := fun hc => hid (hc ▸ mem_ids_of_source? hconfirms.source)
  rw [source?, node?_inserted hid, if_neg hc]
  exact hconfirms.source

theorem Backed.attach (h : g.Backed) {e : Edge} {source target : Node} {o : OutputPort}
    {i : InputPort} (ha : Attachable g e source target o i) :
    (g.attached e source o i).Backed := by
  intro x hx
  change x ∈ (g.edges.insert e).edges at hx
  rcases EdgeTable.mem_insert.mp hx with rfl | ⟨hmem, hslot⟩
  · obtain ⟨hlt, -⟩ := List.getElem?_eq_some_iff.mp ha.hasOutput
    have hout : g.HasOutput x.producer x.address.output.toNat := ⟨source, ha.hasSource, hlt⟩
    exact ⟨by rw [source?_attached ha, if_pos ⟨rfl, rfl⟩], ha.apart, hout.attached⟩
  · have hconfirms := h x hmem
    have hne : ¬(x.consumer = e.consumer ∧ e.address.input.toNat = x.address.input.toNat) := by
      rintro ⟨hc, hi⟩
      exact hslot (Prod.ext hc (UInt8.toNat_inj.mp hi.symm))
    exact ⟨by rw [source?_attached ha, if_neg hne, hconfirms.source], hconfirms.apart,
      hconfirms.output.attached⟩

theorem Backed.detach (h : g.Backed) (c : NodeId) (slot : UInt8) : (g.detached c slot).Backed := by
  intro e he
  obtain ⟨hmem, hslot⟩ := EdgeTable.mem_remove.mp he
  have hconfirms := h e hmem
  have hne : ¬(e.consumer = c ∧ slot.toNat = e.address.input.toNat) := by
    rintro ⟨hc, hi⟩
    exact hslot (Prod.ext hc (UInt8.toNat_inj.mp hi.symm))
  exact ⟨by rw [source?_detached, if_neg hne, hconfirms.source], hconfirms.apart,
    hconfirms.output.detached c slot⟩

theorem Backed.set (h : g.Backed) (id : NodeId) (s : Setting) :
    (g.modifyNode id s.onNode).Backed := by
  intro e he
  have hconfirms := h e he
  exact ⟨by rw [source?_set, hconfirms.source], hconfirms.apart, hconfirms.output.set id s⟩

/-- A node that loses a source in its turn loses the edge of the input. -/
theorem Backed.turn (h : g.Backed) {id : NodeId} {n : Node} (hn : g.node? id = some n)
    (hports : n.ports.Indexed) (now : Moment) : (runNode now g id).Backed := by
  intro e he
  rw [runNode_eq hn] at he
  obtain ⟨hmem, hkept⟩ := mem_dropEdges.mp he
  have hconfirms := h e hmem
  refine ⟨(source?_runNode hports hn now).mpr ⟨hconfirms.source, ?_⟩, hconfirms.apart,
    hconfirms.output.runNode hports hn now⟩
  rintro rfl x hx haddress
  refine hkept x hx ?_
  rw [haddress]
  rfl

theorem backed_upkeep : Upkeep Node.Placed (fun _ g => g.Tidy) fun _ g => g.Backed where
  blank _ _ := by
    intro e he
    exact nomatch he
  context _ _ h := fun e he => ⟨(h e he).source, (h e he).apart, (h e he).output⟩
  remove id _ h := h.remove id
  insert _ h hid _ := h.insert hid
  attach _ h ha := h.attach ha
  disconnect _ h hd := by
    obtain ⟨slot, rfl, -, -, rfl⟩ := disconnect_eq_some hd
    exact h.detach _ slot
  set id s _ h := h.set id s
  turn {g id rest} now hg h := by
    cases hn : g.node? id with
    | none =>
        rw [runNode_of_none hn]
        exact h
    | some n => exact h.turn hn (hg.node hn).indexed now

/-- The edges of such a graph have their ports. -/
theorem Handled.backed (h : g.Handled) : g.Backed :=
  (h.upheld (tidy_upkeep.and backed_upkeep) Node.placed_create Node.placed_reloaded fun h =>
    ⟨h.1.nodup, fun n hn => ⟨(h.1.placed n hn).sound, h.1.placed n hn⟩⟩).2

/-! ## Names in a graph -/

theorem labelled_upkeep :
    Upkeep (fun n => n.Placed ∧ n.Labelled) (fun _ g => g.Tidy) fun _ g =>
      g.Throughout Node.Labelled :=
  (throughout_upkeep (fun h hn => ⟨(h.node hn).indexed, (h.node hn).sound⟩)
    (fun _ i h => h.detach i) (fun _ e source o i _ h => h.attached e source o i)
    (fun _ s h => h.set s) (fun _ now supply _ _ h => h.takeTurn now supply)).mono fun _ h => h.2

/-- In such a graph the inputs of each node differ. -/
theorem Handled.labelled (h : g.Handled) : g.Throughout Node.Labelled := by
  have hupkeep := (tidy_upkeep.mono fun _ hn => And.left hn).and labelled_upkeep
  refine (h.upheld hupkeep (fun t c id => ⟨Node.placed_create t c id, Node.labelled_create t c id⟩)
    (fun hn hsound => ⟨Node.placed_reloaded hn.1 hsound, hn.2.reloaded⟩) ?_).2
  rintro turns g ⟨htidy, hlabelled⟩
  refine ⟨htidy.nodup, fun n hn => ?_⟩
  have hplaced := htidy.placed n hn
  exact ⟨hplaced.sound, hplaced, hlabelled n.id n (nodeIn?_of_mem htidy.nodup hn)⟩

theorem Tidy.nodup_outputNames (h : g.Tidy) {x : NodeId} {n : Node} (hn : g.node? x = some n) :
    n.ports.outputNames.Nodup := by
  rw [(h.node hn).sound.outputs]
  exact n.type.nodup_outputNames

theorem outputName_eq {x : NodeId} {n : Node} {index : UInt8} {o : OutputPort}
    (hn : g.node? x = some n) (ho : n.ports.outputs[index.toNat]? = some o) :
    g.outputName x index = o.name := by
  unfold outputName
  rw [hn, Option.bind_some, ho]

theorem inputName_eq {x : NodeId} {n : Node} {index : UInt8} {i : InputPort}
    (hn : g.node? x = some n) (hi : n.ports.inputs[index.toNat]? = some i) :
    g.inputName x index = i.name := by
  unfold inputName
  rw [hn, Option.bind_some, hi]

/-- The ports of a confirmed edge. -/
theorem Confirms.attachable {e : Edge} (h : g.Confirms e) :
    ∃ source target o i, Attachable g e source target o i := by
  obtain ⟨source, hsource, hlt⟩ := h.output
  obtain ⟨target, htarget, ha⟩ := source?_eq_some.mp h.source
  obtain ⟨i, hi, -⟩ := Directory.source?_eq_some.mp ha
  exact ⟨source, target, _, i, h.apart, hsource, List.getElem?_eq_getElem hlt, htarget, hi⟩

/-- A connection of two ports by names under which they are found. -/
theorem connectNamed_eq {e : Edge} {source target : Node} {o : OutputPort} {i : InputPort}
    (ha : Attachable g e source target o i) {output input : String}
    (ho : source.ports.outputIndex? output = some e.address.output.toNat)
    (hi : target.ports.inputIndex? input = some e.address.input.toNat) :
    g.connectNamed e.producer output e.consumer input = .ok (e, g.attached e source o i) := by
  have hconnect : g.connect e.producer e.address.output.toNat e.consumer e.address.input.toNat =
      .ok (e, g.attached e source o i) :=
    connect_eq_ok.mpr ⟨⟨rfl, rfl, rfl, rfl⟩, source, target, o, i, ha, rfl⟩
  unfold connectNamed
  simp only [except_bind_eq_ok, orFail_eq_ok]
  exact ⟨source, ha.hasSource, _, ho, target, ha.hasTarget, _, hi, hconnect⟩

/-- The names that a summary gives to the ports of an edge lead to these ports, and a connection
by these names is this edge. -/
structure Told (g : Graph) (e : Edge) : Prop where
  output : ∃ n, g.node? e.producer = some n ∧
    n.ports.outputIndex? (g.edgeSummary e).output = some e.address.output.toNat
  input : ∃ n, g.node? e.consumer = some n ∧
    n.ports.inputIndex? (g.edgeSummary e).input = some e.address.input.toNat
  connected : (g.connectNamed (g.edgeSummary e).producer (g.edgeSummary e).output
    (g.edgeSummary e).consumer (g.edgeSummary e).input).map Prod.fst = .ok e

/-- Names address ports faithfully: the inputs of each node differ in their names, its outputs do,
and the summary tells each edge by names that lead back to it. -/
theorem ports_told_by_names (h : g.Handled) :
    (∀ n ∈ g.nodes, n.ports.inputNames.Nodup ∧ n.ports.outputNames.Nodup) ∧
      ∀ e ∈ g.edges.edges, g.Told e := by
  have htidy := h.tidy
  refine ⟨fun n hn => ?_, fun e he => ?_⟩
  · have hnode : g.node? n.id = some n := nodeIn?_of_mem htidy.nodup hn
    exact ⟨(h.labelled n.id n hnode).nodup, htidy.nodup_outputNames hnode⟩
  obtain ⟨source, target, o, i, ha⟩ := (h.backed e he).attachable
  have houtput : source.ports.outputIndex? (g.edgeSummary e).output =
      some e.address.output.toNat := by
    show source.ports.outputIndex? (g.outputName e.producer e.address.output) = _
    rw [outputName_eq ha.hasSource ha.hasOutput]
    exact Directory.outputIndex?_of_nodup (htidy.nodup_outputNames ha.hasSource) ha.hasOutput
  have hinput : target.ports.inputIndex? (g.edgeSummary e).input =
      some e.address.input.toNat := by
    show target.ports.inputIndex? (g.inputName e.consumer e.address.input) = _
    rw [inputName_eq ha.hasTarget ha.hasInput]
    exact Directory.inputIndex?_of_nodup (h.labelled _ _ ha.hasTarget).nodup ha.hasInput
  refine ⟨⟨source, ha.hasSource, houtput⟩, ⟨target, ha.hasTarget, hinput⟩, ?_⟩
  have hconnect := connectNamed_eq ha houtput hinput
  exact congrArg (Except.map Prod.fst) hconnect

end Graph

end Patchbay

/-! ## With the standard engine -/

namespace Patchbay.Graph

/-- A list whose text names a variable twice, nothing, a reserved name and the size of another
dimension, and that has taken over the variables `a` and `b`; its `b` is fed. -/
def relabelled : Graph :=
  run [.create .list, .set ⟨0⟩ (.listVariables "a; a ;i;sizey;;b"), .step Poll.none 0,
    .create .value, .connectNamed ⟨3⟩ "value" ⟨0⟩ "b"] (empty "relabelled")

/-- The inputs of the list, and its edge told by names. -/
theorem ports_told_by_names_of_relabelled :
    relabelled.Handled ∧
      (relabelled.node? ⟨0⟩).map (·.ports.inputNames) = some ["sizex", "a", "b"] ∧
        relabelled.summary.edges = [⟨⟨3⟩, "value", ⟨0⟩, "b"⟩] ∧
          ∀ e ∈ relabelled.edges.edges, relabelled.Told e := by
  have hauthored : relabelled.Authored := authored_run (by decide) (.empty "relabelled")
  exact ⟨hauthored.handled, by decide +kernel, by decide +kernel,
    (ports_told_by_names hauthored.handled).2⟩

end Patchbay.Graph
