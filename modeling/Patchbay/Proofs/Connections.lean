import Patchbay.Formula.Basic
import Patchbay.Proofs.Deletions
/-!
What the wiring calls change, and what they leave when they fail.

A call of a user edits the graph in place, step by step, and can fail at
several of these steps.  `Rewiring` is a call of this kind: what it has
edited when it fails stays edited.  Each wiring call is written down once
more as a `Rewiring` with its edits in the order in which they are made, and
comes to the same as the call that gives a new graph or none.  So a call
that fails has edited nothing.

`Refed` says what an edge that comes or goes changes: where one input reads
from, in the port and in the table, and what the behavior of its node is
told.
-/

namespace Patchbay

/-! ## The table -/

namespace EdgeTable

variable {t : EdgeTable} {e : Edge}

theorem ext_edges {t t' : EdgeTable} (h : t.edges = t'.edges) : t = t' := by
  cases t with
  | mk edges nodup =>
      cases t' with
      | mk edges' nodup' =>
          cases h
          rfl

theorem get?_insert_self : (t.insert e).get? e.slot = some e.address :=
  get?_eq_some.mpr ⟨mem_insert.mpr (Or.inl rfl), rfl⟩

theorem get?_remove_self {s : Slot} : (t.remove s).get? s = none := by
  rw [Option.eq_none_iff_forall_ne_some]
  intro a ha
  obtain ⟨hmem, hi⟩ := get?_eq_some.mp ha
  exact (mem_remove.mp hmem).2 (Prod.ext rfl hi)

/-- The edges of other inputs keep their order when an edge is added. -/
theorem others_insert :
    (t.insert e).edges.filter (·.slot != e.slot) = t.edges.filter (·.slot != e.slot) := by
  unfold insert
  split
  · have hkeep : ((fun x : Edge => x.slot != e.slot) ∘ replaceIn e) =
        fun x => x.slot != e.slot := by
      funext x
      simp only [Function.comp_apply, slot_replaceIn]
    rw [List.filter_map, hkeep]
    refine (List.map_congr_left fun x hx => ?_).trans (List.map_id' _)
    have hx : x.slot ≠ e.slot := by simpa using (List.mem_filter.mp hx).2
    exact if_neg hx
  · simp

theorem others_remove {s : Slot} :
    (t.remove s).edges.filter (·.slot != s) = t.edges.filter (·.slot != s) := by
  show (t.edges.filter _).filter _ = _
  rw [List.filter_filter]
  exact List.filter_congr fun x _ => Bool.and_self _

/-- An edge on a free input goes without a trace. -/
theorem remove_insert (h : ∀ x ∈ t.edges, x.slot ≠ e.slot) : (t.insert e).remove e.slot = t := by
  refine ext_edges (others_insert.trans ?_)
  exact List.filter_eq_self.mpr fun x hx => by simpa using h x hx

end EdgeTable

/-! ## One input -/

namespace Directory

variable {d : Directory} {i : Nat}

theorem modifyInput_modifyInput (f f' : InputPort → InputPort) :
    (d.modifyInput i f).modifyInput i f' = d.modifyInput i (f' ∘ f) := by
  unfold modifyInput
  rw [List.modify_modify_eq]

/-- A change that the input does not notice. -/
theorem modifyInput_of_same {p : InputPort} (hp : d.inputs[i]? = some p)
    {f : InputPort → InputPort} (hf : f p = p) : d.modifyInput i f = d := by
  have hinputs : d.inputs.modify i f = d.inputs := by
    apply List.ext_getElem?
    intro j
    rw [List.getElem?_modify]
    by_cases hj : i = j
    · subst hj
      simp [hp, hf]
    · simp [hj]
  rw [modifyInput, hinputs]

/-- A free input is as before when it is made to read from nowhere, whatever it has been made to
read from in between. -/
theorem detach_of_free {p : InputPort} (hp : d.inputs[i]? = some p) (hfree : p.source = none) :
    d.modifyInput i InputPort.detach = d := by
  obtain ⟨name, accepted, source⟩ := p
  cases hfree
  exact modifyInput_of_same hp rfl

theorem detach_attach (a : Address) :
    (d.modifyInput i (·.attach a)).modifyInput i InputPort.detach =
      d.modifyInput i InputPort.detach :=
  modifyInput_modifyInput _ _

end Directory

variable [Formula.Engine]

namespace Node

/-- The node with another source at an input, of which its behavior has been told. -/
def refed (n : Node) (input : Nat) (a : Option Address) (told : Behavior → Behavior) : Node :=
  { n with
    ports := n.ports.modifyInput input fun p => { p with source := a }
    behavior := told n.behavior }

variable {n : Node} {input : Nat} {p : InputPort}

theorem detach_eq_refed (hp : n.ports.inputs[input]? = some p) :
    n.detach input = n.refed input none (·.disconnected p.name) := by
  unfold detach
  rw [hp]
  rfl

/-- What is left of an edge on a free input that comes and goes is what the behavior was told. -/
theorem detach_attachedNode {e : Edge} (hp : n.ports.inputs[e.address.input.toNat]? = some p)
    (hfree : p.source = none) (source : Node) (o : OutputPort) :
    (Graph.attachedNode e source o p n).detach e.address.input.toNat =
      (n.connected p.name ⟨source.name, o.name⟩).disconnected p.name := by
  have hconnected : p.isConnected = false := by rw [InputPort.isConnected, hfree]; rfl
  have hport : (Graph.attachedNode e source o p n).ports.inputs[e.address.input.toNat]? =
      some (p.attach e.address) := by
    rw [Graph.ports_attachedNode]
    simp [Directory.modifyInput, hp]
  have hname : (p.attach e.address).name = p.name := rfl
  unfold Node.detach
  rw [hport]
  simp only [hname]
  rw [Graph.attachedNode_eq, hconnected]
  simp only [Bool.false_eq_true, if_false]
  rw [Directory.detach_attach, Directory.detach_of_free hp hfree]
  rfl

end Node

namespace Graph

/-! ## Calls that edit in place -/

/-- A call that edits a graph in place. -/
abbrev Rewiring (ε α : Type) := ExceptT ε (StateM Graph) α

namespace Rewiring

variable {ε α β : Type}

/-- The outcome of a call, and the graph that it leaves. -/
def perform (r : Rewiring ε α) (g : Graph) : Except ε α × Graph := Id.run (StateT.run r.run g)

/-- Goes on with a value, or fails. -/
def need (e : ε) : Option α → Rewiring ε α
  | some a => pure a
  | none => throw e

theorem perform_get_bind (f : Graph → Rewiring ε β) (g : Graph) :
    perform (get >>= f) g = perform (f g) g := rfl

theorem perform_need_bind (e : ε) (a : Option α) (f : α → Rewiring ε β) (g : Graph) :
    perform (need e a >>= f) g = a.elim (.error e, g) fun a => perform (f a) g := by
  cases a <;> rfl

theorem perform_modify_bind (edit : Graph → Graph) (f : PUnit → Rewiring ε β) (g : Graph) :
    perform (modify edit >>= f) g = perform (f ⟨⟩) (edit g) := rfl

end Rewiring

open Rewiring

/-- Changes the table. -/
def withEdges (f : EdgeTable → EdgeTable) (g : Graph) : Graph := { g with edges := f g.edges }

/-- `Graph.connect` in place: the port, the table, and then the behavior. -/
def connecting (producer : NodeId) (output : Nat) (consumer : NodeId) (input : Nat) :
    Rewiring ConnectionError Edge := do
  if producer = consumer then throw .selfLoop
  let g ← get
  let source ← need (.noNode producer) (g.node? producer)
  let outputPort ← need (.noPort producer .output output) source.ports.outputs[output]?
  let target ← need (.noNode consumer) (g.node? consumer)
  let inputSlot ← need (.noPort consumer .input input) (slot? input)
  let outputSlot ← need (.noPort producer .output output) (slot? output)
  let inputPort ← need (.noPort consumer .input input) target.ports.inputs[input]?
  let e : Edge := ⟨consumer, producer, outputSlot, inputSlot⟩
  modify (·.modifyNode consumer fun n =>
    { n with ports := n.ports.modifyInput input (·.attach e.address) })
  modify (withEdges (·.insert e))
  if inputPort.isConnected then modify (·.modifyNode consumer (·.disconnected inputPort.name))
  modify (·.modifyNode consumer (·.connected inputPort.name ⟨source.name, outputPort.name⟩))
  return e

/-- `Graph.connectNamed` in place. -/
def connectingNamed (producer : NodeId) (output : String) (consumer : NodeId) (input : String) :
    Rewiring ConnectionError Edge := do
  let g ← get
  let source ← need (.noNode producer) (g.node? producer)
  let o ← need (.noPortNamed producer output) (source.ports.outputIndex? output)
  let target ← need (.noNode consumer) (g.node? consumer)
  let i ← need (.noPortNamed consumer input) (target.ports.inputIndex? input)
  connecting producer o consumer i

/-- `Graph.disconnect` in place: the port, the table, and then the behavior.  An input is made
to read from nowhere before it is known whether it had a source. -/
def disconnecting (consumer : NodeId) (input : Nat) : Rewiring Unit Edge := do
  let slot ← need () (slot? input)
  let g ← get
  let n ← need () (g.node? consumer)
  let p ← need () n.ports.inputs[input]?
  modify (·.modifyNode consumer fun n =>
    { n with ports := n.ports.modifyInput input InputPort.detach })
  let address ← need () p.source
  modify (withEdges (·.remove (consumer, slot)))
  modify (·.modifyNode consumer (·.disconnected p.name))
  return ⟨consumer, address⟩

/-- What a call in place comes to when a graph is changed only together with an outcome. -/
def settled {ε α : Type} (g : Graph) : Except ε (α × Graph) → Except ε α × Graph
  | .ok (a, g') => (.ok a, g')
  | .error e => (.error e, g)

theorem withEdges_of_same {g : Graph} {f : EdgeTable → EdgeTable} (hf : f g.edges = g.edges) :
    withEdges f g = g := by
  rw [withEdges, hf]

/-- Two changes of a node, with a change of the table between them. -/
theorem modifyNode_withEdges {id : NodeId} {f f' : Node → Node} {k : EdgeTable → EdgeTable}
    (g : Graph) (hf : ∀ n, n.id = id → (f n).id = id) :
    (withEdges k (g.modifyNode id f)).modifyNode id f' =
      withEdges k (g.modifyNode id fun n => f' (f n)) := by
  have hnodes : changeNode id f' (changeNode id f g.nodes) =
      changeNode id (fun n => f' (f n)) g.nodes := by
    rw [changeNode, changeNode, changeNode, List.map_map]
    refine List.map_congr_left fun n _ => ?_
    by_cases hn : n.id = id
    · simp [hn, hf n hn]
    · simp [hn]
  exact congrArg (fun nodes => withEdges k { g with nodes }) hnodes

/-- A call and its form in place get the same values, and fail alike. -/
theorem perform_need {α β : Type} {g : Graph} {e : ConnectionError} {a : Option α}
    {f : α → Rewiring ConnectionError β} {k : α → Except ConnectionError (β × Graph)}
    (h : ∀ x, a = some x → (f x).perform g = settled g (k x)) :
    perform (need e a >>= f) g = settled g (orFail e a >>= k) := by
  cases a with
  | none => rfl
  | some x => exact h x rfl

theorem perform_connecting (producer : NodeId) (output : Nat) (consumer : NodeId) (input : Nat)
    (g : Graph) :
    (connecting producer output consumer input).perform g =
      settled g (g.connect producer output consumer input) := by
  unfold connecting connect
  by_cases hself : producer = consumer
  · rw [if_pos hself, if_pos hself]
    rfl
  rw [if_neg hself, if_neg hself]
  refine (perform_get_bind _ g).trans (perform_need fun source _ => ?_)
  refine perform_need fun o _ => perform_need fun target _ => perform_need fun inputSlot hin => ?_
  refine perform_need fun outputSlot _ => perform_need fun p _ => ?_
  cases slot?_eq_some.mp hin
  cases hp : p.isConnected with
  | true =>
      rw [perform_modify_bind, perform_modify_bind, if_pos rfl, perform_modify_bind,
        perform_modify_bind, modifyNode_withEdges, modifyNode_withEdges]
      · rfl
      · exact fun _ hn => hn
      · exact fun _ hn => hn
  | false =>
      rw [perform_modify_bind, perform_modify_bind, if_neg Bool.false_ne_true,
        perform_modify_bind, modifyNode_withEdges]
      · rfl
      · exact fun _ hn => hn

theorem perform_connectingNamed (producer : NodeId) (output : String) (consumer : NodeId)
    (input : String) (g : Graph) :
    (connectingNamed producer output consumer input).perform g =
      settled g (g.connectNamed producer output consumer input) := by
  unfold connectingNamed connectNamed
  refine (perform_get_bind _ g).trans (perform_need fun source _ => ?_)
  refine perform_need fun o _ => perform_need fun target _ => perform_need fun i _ => ?_
  exact perform_connecting producer o consumer i g

/-- The outcome of a call that has no error to tell. -/
def answer {α : Type} : Option α → Except Unit α
  | some a => .ok a
  | none => .error ()

theorem perform_need_answer {α β : Type} {g : Graph} {a : Option α} {f : α → Rewiring Unit β}
    {k : α → Option (β × Graph)}
    (h : ∀ x, a = some x → (f x).perform g = settled g (answer (k x))) :
    perform (need () a >>= f) g = settled g (answer (a >>= k)) := by
  cases a with
  | none => rfl
  | some x => exact h x rfl

/-- A change of the one node under an identity. -/
theorem Wired.modifyNode_congr {g : Graph} (h : g.Wired) {id : NodeId} {n : Node}
    (hn : g.node? id = some n) {f f' : Node → Node} (hf : f n = f' n) :
    g.modifyNode id f = g.modifyNode id f' := by
  have hnodes : changeNode id f g.nodes = changeNode id f' g.nodes := by
    refine List.map_congr_left fun m hm => ?_
    by_cases hid : m.id = id
    · have hm : g.node? m.id = some m := nodeIn?_of_mem h.nodup hm
      rw [hid, hn] at hm
      cases hm
      rw [if_pos hid, if_pos hid, hf]
    · rw [if_neg hid, if_neg hid]
  exact congrArg (fun nodes => { g with nodes }) hnodes

theorem modifyNode_id (g : Graph) (id : NodeId) : g.modifyNode id (fun n => n) = g := by
  have hnodes : changeNode id (fun n => n) g.nodes = g.nodes := by simp [changeNode]
  exact congrArg (fun nodes => { g with nodes }) hnodes

theorem Wired.perform_disconnecting {g : Graph} (h : g.Wired) (consumer : NodeId) (input : Nat) :
    (disconnecting consumer input).perform g =
      settled g (answer (g.disconnect consumer input)) := by
  unfold disconnecting disconnect
  refine perform_need_answer fun slot _ => ?_
  refine (perform_get_bind _ g).trans (perform_need_answer fun n hn => ?_)
  rw [← Option.bind_eq_bind, bind_assoc]
  refine perform_need_answer fun p hp => ?_
  rw [perform_modify_bind, perform_need_bind]
  cases hsource : p.source with
  | none =>
      -- The port has been edited, but it read from nowhere before.
      have hsame : (g.modifyNode consumer fun n =>
          { n with ports := n.ports.modifyInput input InputPort.detach }) = g := by
        refine (h.modifyNode_congr hn ?_).trans (modifyNode_id g consumer)
        rw [Directory.detach_of_free hp hsource]
      exact congrArg (Prod.mk (Except.error ())) hsame
  | some a =>
      have hdetach : n.detach input =
          { n with ports := n.ports.modifyInput input InputPort.detach }.disconnected p.name := by
        rw [Node.detach_eq_refed hp]
        rfl
      rw [Option.elim_some, perform_modify_bind, perform_modify_bind, modifyNode_withEdges]
      · have hsame : g.modifyNode consumer (·.detach input) = g.modifyNode consumer fun n =>
            { n with ports := n.ports.modifyInput input InputPort.detach }.disconnected p.name :=
          h.modifyNode_congr hn hdetach
        rw [← hsame]
        rfl
      · exact fun _ hn => hn

/-! ## What an edge changes -/

/-- The source of one input is another one, in the port and in the table, of which its node has
been told; everything else is as it was. -/
structure Refed (g g' : Graph) (s : Slot) (a : Option Address) (told : Behavior → Behavior) :
    Prop where
  name : g'.name = g.name
  context : g'.context = g.context
  nodes : g'.nodes = changeNode s.1 (·.refed s.2.toNat a told) g.nodes
  source : ∀ c i, g'.source? c i = if c = s.1 ∧ s.2.toNat = i then a else g.source? c i
  entry : g'.edges.get? s = a
  others : g'.edges.edges.filter (·.slot != s) = g.edges.edges.filter (·.slot != s)

theorem Attachable.refed {g : Graph} {e : Edge} {source target : Node} {o : OutputPort}
    {i : InputPort} (h : Attachable g e source target o i) :
    Refed g (g.attached e source o i) e.slot (some e.address) fun b =>
      (if i.isConnected then b.disconnected i.name else b).connected i.name
        ⟨source.name, o.name⟩ where
  name := rfl
  context := rfl
  nodes := by
    have hnode : attachedNode e source o i = _ := funext fun n => attachedNode_eq e source o i n
    rw [attached_eq, hnode]
    rfl
  source c j := source?_attached h c j
  entry := EdgeTable.get?_insert_self
  others := EdgeTable.others_insert

theorem Wired.refed_detached {g : Graph} (h : g.Wired) {c : NodeId} {n : Node}
    (hn : g.node? c = some n) {slot : UInt8} {p : InputPort}
    (hp : n.ports.inputs[slot.toNat]? = some p) :
    Refed g (g.detached c slot) (c, slot) none (·.disconnected p.name) where
  name := rfl
  context := rfl
  nodes := congrArg Graph.nodes (h.modifyNode_congr hn (Node.detach_eq_refed hp))
  source x j := source?_detached g c slot x j
  entry := EdgeTable.get?_remove_self
  others := EdgeTable.others_remove

/-! ## When the calls succeed -/

/-- A node is there and has an input with a number. -/
def HasInput (g : Graph) (id : NodeId) (i : Nat) : Prop :=
  ∃ n, g.node? id = some n ∧ i < n.ports.inputs.length

/-- Two ports that an edge can join: an output and an input of different nodes, with numbers that
fit into an address. -/
structure Joinable (g : Graph) (producer : NodeId) (output : Nat) (consumer : NodeId)
    (input : Nat) : Prop where
  apart : producer ≠ consumer
  hasOutput : g.HasOutput producer output
  hasInput : g.HasInput consumer input
  output_fits : output < 256
  input_fits : input < 256

theorem connect_succeeds_iff {g : Graph} {producer : NodeId} {output : Nat} {consumer : NodeId}
    {input : Nat} :
    (∃ r, g.connect producer output consumer input = .ok r) ↔
      g.Joinable producer output consumer input := by
  constructor
  · rintro ⟨⟨e, g'⟩, hr⟩
    obtain ⟨⟨rfl, rfl, rfl, rfl⟩, source, target, o, i, h, -⟩ := connect_eq_ok.mp hr
    obtain ⟨ho, -⟩ := List.getElem?_eq_some_iff.mp h.hasOutput
    obtain ⟨hi, -⟩ := List.getElem?_eq_some_iff.mp h.hasInput
    exact ⟨h.apart, ⟨source, h.hasSource, ho⟩, ⟨target, h.hasTarget, hi⟩, e.address.output.toNat_lt,
      e.address.input.toNat_lt⟩
  · rintro ⟨hapart, ⟨source, hsource, ho⟩, ⟨target, htarget, hi⟩, hoFits, hiFits⟩
    have hoSlot : (UInt8.ofNat output).toNat = output := Nat.mod_eq_of_lt hoFits
    have hiSlot : (UInt8.ofNat input).toNat = input := Nat.mod_eq_of_lt hiFits
    let e : Edge := ⟨consumer, producer, UInt8.ofNat output, UInt8.ofNat input⟩
    have h : Attachable g e source target _ _ := ⟨hapart, hsource,
      (congrArg (source.ports.outputs[·]?) hoSlot).trans (List.getElem?_eq_getElem ho), htarget,
      (congrArg (target.ports.inputs[·]?) hiSlot).trans (List.getElem?_eq_getElem hi)⟩
    exact ⟨(e, _), connect_eq_ok.mpr ⟨⟨rfl, rfl, hoSlot, hiSlot⟩, source, target, _, _, h, rfl⟩⟩

/-- Disconnecting gives back the edge of the table that feeds the input. -/
theorem Wired.disconnect_succeeds_iff {g : Graph} (h : g.Wired) {consumer : NodeId} {input : Nat}
    {e : Edge} {g' : Graph} :
    g.disconnect consumer input = some (e, g') ↔
      (e ∈ g.edges.edges ∧ e.consumer = consumer ∧ e.address.input.toNat = input) ∧
        g' = g.detached e.consumer e.address.input := by
  constructor
  · intro hd
    obtain ⟨slot, hslot, hsource, hc, rfl⟩ := disconnect_eq_some hd
    have hi := h.indexed _ _ _ hsource
    cases UInt8.toNat_inj.mp (hi.trans hslot.symm)
    subst hc hi
    exact ⟨⟨(h.edge_iff e).mpr hsource, rfl, rfl⟩, rfl⟩
  · rintro ⟨⟨he, rfl, rfl⟩, rfl⟩
    obtain ⟨n, hn, hports⟩ := source?_eq_some.mp ((h.edge_iff e).mp he)
    have hslot : slot? e.address.input.toNat = some e.address.input := slot?_eq_some.mpr rfl
    unfold disconnect
    rw [hslot, hn]
    show (n.ports.source? _ >>= _) = _
    rw [hports]
    rfl

/-- An edge on a free input that comes and goes leaves the graph as it was, but for what the
behavior of the consumer has been told. -/
theorem Wired.disconnect_attached {g : Graph} (h : g.Wired) {e : Edge} {source target : Node}
    {o : OutputPort} {i : InputPort} (ha : Attachable g e source target o i)
    (hfree : i.source = none) :
    (g.attached e source o i).disconnect e.consumer e.address.input.toNat =
      some (e, g.modifyNode e.consumer fun n =>
        (n.connected i.name ⟨source.name, o.name⟩).disconnected i.name) := by
  have hmem : e ∈ (g.attached e source o i).edges.edges := EdgeTable.mem_insert.mpr (Or.inl rfl)
  refine (h.attach ha).disconnect_succeeds_iff.mpr ⟨⟨hmem, rfl, rfl⟩, ?_⟩
  have hslot : ∀ x ∈ g.edges.edges, x.slot ≠ e.slot := by
    intro x hx hslot
    obtain ⟨hc, hi⟩ := Prod.mk.inj hslot
    obtain ⟨n, hn, hs⟩ := source?_eq_some.mp ((h.edge_iff x).mp hx)
    rw [hc, ha.hasTarget, Option.some.injEq] at hn
    obtain ⟨p, hp, hpx⟩ := Directory.source?_eq_some.mp hs
    rw [← hn, hi, ha.hasInput, Option.some.injEq] at hp
    rw [← hp, hfree] at hpx
    exact nomatch hpx
  have hedges : (g.edges.insert e).remove e.slot = g.edges := EdgeTable.remove_insert hslot
  have hkeep : ∀ n, n.id = e.consumer → (attachedNode e source o i n).id = e.consumer :=
    fun n hn => (id_attachedNode e source o i n).trans hn
  have htold : (g.modifyNode e.consumer fun n =>
      (attachedNode e source o i n).detach e.address.input.toNat) = g.modifyNode e.consumer fun n =>
        (n.connected i.name ⟨source.name, o.name⟩).disconnected i.name :=
    h.modifyNode_congr ha.hasTarget (Node.detach_attachedNode ha.hasInput hfree source o)
  calc g.modifyNode e.consumer fun n =>
        (n.connected i.name ⟨source.name, o.name⟩).disconnected i.name
    _ = withEdges (fun t => (t.insert e).remove e.slot) (g.modifyNode e.consumer fun n =>
          (n.connected i.name ⟨source.name, o.name⟩).disconnected i.name) :=
        (withEdges_of_same hedges).symm
    _ = withEdges (·.remove e.slot) (withEdges (·.insert e) (g.modifyNode e.consumer fun n =>
          (attachedNode e source o i n).detach e.address.input.toNat)) := by
        rw [htold]
        rfl
    _ = withEdges (·.remove e.slot) ((withEdges (·.insert e)
          (g.modifyNode e.consumer (attachedNode e source o i))).modifyNode e.consumer
            (·.detach e.address.input.toNat)) := by
        rw [modifyNode_withEdges g hkeep]
    _ = (g.attached e source o i).detached e.consumer e.address.input := rfl

/-! ## Exactness -/

/-- The wiring calls are atomic and exact.  In place they come to the same as the calls that give
a new graph, so that they have edited nothing when they fail; `connect` succeeds on what can be
joined and `disconnect` on an edge of the table, and they change what one input reads from; an
edge on a free input that comes and goes leaves only what the behavior of the consumer makes of
being told. -/
theorem wiring_calls_exact {g : Graph} (h : g.Reachable) (producer : NodeId) (output : Nat)
    (consumer : NodeId) (input : Nat) :
    ((connecting producer output consumer input).perform g =
        settled g (g.connect producer output consumer input) ∧
      (∀ outputName inputName, (connectingNamed producer outputName consumer inputName).perform g =
        settled g (g.connectNamed producer outputName consumer inputName)) ∧
      (disconnecting consumer input).perform g =
        settled g (answer (g.disconnect consumer input))) ∧
    ((∃ r, g.connect producer output consumer input = .ok r) ↔
      g.Joinable producer output consumer input) ∧
    (∀ e g', g.connect producer output consumer input = .ok (e, g') →
      (e.producer = producer ∧ e.address.output.toNat = output ∧ e.consumer = consumer ∧
        e.address.input.toNat = input) ∧
      ∃ source target o i, Attachable g e source target o i ∧
        Refed g g' e.slot (some e.address) (fun b =>
          (if i.isConnected then b.disconnected i.name else b).connected i.name
            ⟨source.name, o.name⟩) ∧
        (i.source = none → g'.disconnect consumer input =
          some (e, g.modifyNode consumer fun n =>
            (n.connected i.name ⟨source.name, o.name⟩).disconnected i.name))) ∧
    ∀ e,
      ((∃ g', g.disconnect consumer input = some (e, g')) ↔
        e ∈ g.edges.edges ∧ e.consumer = consumer ∧ e.address.input.toNat = input) ∧
      ∀ g', g.disconnect consumer input = some (e, g') →
        ∃ n p, g.node? consumer = some n ∧ n.ports.inputs[input]? = some p ∧
          Refed g g' e.slot none (·.disconnected p.name) := by
  have hw := h.wired
  refine ⟨⟨perform_connecting _ _ _ _ g, fun _ _ => perform_connectingNamed _ _ _ _ g,
    hw.perform_disconnecting _ _⟩, connect_succeeds_iff, fun e g' hc => ?_,
    fun e => ⟨?_, fun g' hd => ?_⟩⟩
  · obtain ⟨⟨rfl, rfl, rfl, rfl⟩, source, target, o, i, ha, rfl⟩ := connect_eq_ok.mp hc
    exact ⟨⟨rfl, rfl, rfl, rfl⟩, source, target, o, i, ha, ha.refed, hw.disconnect_attached ha⟩
  · constructor
    · rintro ⟨g', hd⟩
      exact (hw.disconnect_succeeds_iff.mp hd).1
    · intro he
      exact ⟨_, hw.disconnect_succeeds_iff.mpr ⟨he, rfl⟩⟩
  · obtain ⟨⟨he, rfl, rfl⟩, rfl⟩ := hw.disconnect_succeeds_iff.mp hd
    obtain ⟨n, hn, hports⟩ := source?_eq_some.mp ((hw.edge_iff e).mp he)
    obtain ⟨p, hp, -⟩ := Directory.source?_eq_some.mp hports
    exact ⟨n, p, hn, hp, hw.refed_detached hn hp⟩

end Graph

end Patchbay

/-! ## With the standard engine -/

namespace Patchbay.Graph

/-- A sum with a constant on one of its two inputs, beside another constant. -/
def halfFed : Graph :=
  run [.create .value, .create .value, .create .math, .connect ⟨0⟩ 0 ⟨4⟩ 0] (empty "half fed")

/-- The sum has no third input.  The other constant can feed the second one, which is free again
when the edge is taken away; on the first one it replaces an edge. -/
theorem wiring_calls_exact_of_halfFed :
    halfFed.Reachable ∧
      (connecting ⟨2⟩ 0 ⟨4⟩ 2).perform halfFed = (.error (.noPort ⟨4⟩ .input 2), halfFed) ∧
      (∃ e g₁ g₂, halfFed.connect ⟨2⟩ 0 ⟨4⟩ 1 = .ok (e, g₁) ∧
        g₁.disconnect ⟨4⟩ 1 = some (e, g₂) ∧ g₂.edges = halfFed.edges) ∧
      ∃ e g', halfFed.connect ⟨2⟩ 0 ⟨4⟩ 0 = .ok (e, g') ∧
        g'.edges.get? (⟨4⟩, 0) = some ⟨⟨2⟩, 0, 0⟩ ∧ g'.edges.length = 1 := by
  have hreachable : halfFed.Reachable := ⟨_, _, rfl⟩
  refine ⟨hreachable, (wiring_calls_exact hreachable ⟨2⟩ 0 ⟨4⟩ 2).1.1.trans rfl, ?_, ?_⟩
  · have hconnect : halfFed.connect ⟨2⟩ 0 ⟨4⟩ 1 = .ok (⟨⟨4⟩, ⟨2⟩, 0, 1⟩, _) := rfl
    obtain ⟨-, -, hchange, -⟩ := wiring_calls_exact hreachable ⟨2⟩ 0 ⟨4⟩ 1
    obtain ⟨-, source, target, o, i, ha, -, hback⟩ := hchange _ _ hconnect
    refine ⟨_, _, _, hconnect, hback ?_, rfl⟩
    cases ha.hasTarget
    cases ha.hasInput
    rfl
  · have hconnect : halfFed.connect ⟨2⟩ 0 ⟨4⟩ 0 = .ok (⟨⟨4⟩, ⟨2⟩, 0, 0⟩, _) := rfl
    obtain ⟨-, -, hchange, -⟩ := wiring_calls_exact hreachable ⟨2⟩ 0 ⟨4⟩ 0
    obtain ⟨-, _, _, _, _, -, hrefed, -⟩ := hchange _ _ hconnect
    exact ⟨_, _, hconnect, hrefed.entry, by decide +kernel⟩

end Patchbay.Graph
