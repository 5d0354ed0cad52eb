import Patchbay.Formula.Basic
import Patchbay.Proofs.Gates
import Patchbay.Proofs.Scenes
/-!
Which edges a turn removes.

Every input declares the kinds it takes anew in each turn of its node.  An
edge into the node is removed when its input has been replaced, or when the
producer shows a kind that the input does not take, and for no other reason;
edges into other nodes stay.  This holds of the graphs that are made of new
nodes and of scenes that were saved from such graphs.  Bytes that nobody
saved can name the inputs of a node as they like, and a gate without an
input of its name is not held.
-/

namespace Patchbay

/-! ## Nodes of a saved scene -/

variable [Formula.Engine]

/-- What a scene keeps of a node fits as the node did. -/
theorem Node.fits_reloaded {n : Node} (h : n.Fits) : n.reloaded.Fits := by
  refine ⟨fun names hcounted => ?_, ?_⟩
  · rw [n.inputNames_reloaded]
    refine h.names names ?_
    change n.behavior.reloaded.counted? = some names at hcounted
    cases hb : n.behavior with
    | list s =>
        rw [hb] at hcounted
        cases hcounted
    | _ =>
        rw [hb] at hcounted
        exact hcounted
  · show n.behavior.reloaded.OfList Generator.Named
    cases n.behavior with
    | list s => exact ⟨List.nodup_nil, fun _ hname => absurd hname List.not_mem_nil⟩
    | _ => trivial

namespace Graph

/-! ## Graphs without foreign scenes -/

/-- A graph that is made by actions, where each scene that is loaded was saved from such a
graph. -/
inductive Authored : Graph → Prop
  | empty (name : String) : Authored (Graph.empty name)
  | edit {g : Graph} (a : Action) : a.isLoad = false → Authored g → Authored (a.apply g)
  | load {g saved : Graph} : Authored saved → saved.Storable → Authored g →
      Authored (g.load saved.save).2

theorem authored_run {actions : List Action} (ha : ∀ a ∈ actions, a.isLoad = false) {g : Graph}
    (h : g.Authored) : (g.run actions).Authored := by
  induction actions generalizing g with
  | nil => exact h
  | cons a actions ih =>
      have hrest : ∀ b ∈ actions, b.isLoad = false := fun b hb => ha b (List.mem_cons_of_mem a hb)
      exact ih hrest (.edit a (ha a List.mem_cons_self) h)

theorem Authored.reachable {g : Graph} (h : g.Authored) : g.Reachable := by
  induction h with
  | empty name => exact ⟨name, [], rfl⟩
  | edit a _ _ ih => exact ih.apply a
  | load _ _ _ _ ih => exact ih.apply (.load _)

/-- The nodes of a scene that was saved are those of the graph, as a load leaves them. -/
theorem brings_save {saved : Graph} (hs : saved.Storable) (hnodup : saved.ids.Nodup)
    (hsound : ∀ n ∈ saved.nodes, n.Sound) {g : Graph} {n : Node}
    (hn : (Action.load saved.save).Brings g n) : ∃ k ∈ saved.nodes, n = k.reloaded := by
  obtain ⟨s, b, hread, hmem⟩ := hn
  obtain ⟨s', b', hread', hnodes, -⟩ := readScene_save hs hnodup hsound g.clear.context
  rw [hread] at hread'
  cases hread'
  rw [hnodes] at hmem
  obtain ⟨k, hk, rfl⟩ := List.mem_map.mp hmem
  exact ⟨k, hk, rfl⟩

theorem Reachable.brings_save {saved : Graph} (h : saved.Reachable) (hs : saved.Storable)
    {g : Graph} {n : Node} (hn : (Action.load saved.save).Brings g n) :
    ∃ x k, saved.node? x = some k ∧ n = k.reloaded := by
  obtain ⟨hw, hshape⟩ := h.standing
  obtain ⟨k, hk, heq⟩ := Graph.brings_save hs hw.nodup hshape.sound hn
  exact ⟨k.id, k, nodeIn?_of_mem hw.nodup hk, heq⟩

/-- In such a graph the ports of all nodes have the names that their states count on. -/
theorem Authored.fits {g : Graph} (h : g.Authored) : g.Throughout Node.Fits := by
  induction h with
  | empty name =>
      intro x n hn
      exact nomatch hn
  | @edit g a ha h ih =>
      refine ih.apply Node.fits_lasting h.reachable fun n hn => ?_
      cases a with
      | create t =>
          cases hn
          exact Node.fits_create t g.context _
      | add t c =>
          cases hn
          exact Node.fits_create t c _
      | load bytes => exact nomatch ha
      | _ => exact hn.elim
  | @load g saved hsaved hs h ihsaved ih =>
      refine ih.apply Node.fits_lasting h.reachable (a := .load saved.save) fun n hn => ?_
      obtain ⟨x, k, hk, rfl⟩ := hsaved.reachable.brings_save hs hn
      exact Node.fits_reloaded (ihsaved x k hk)

/-! ## Turns -/

/-- The input of a node that an edge feeds shows a kind that the input does not take. -/
def Refused (g : Graph) (m : Node) (e : Edge) : Prop :=
  ∃ p c, m.ports.inputs[e.address.input.toNat]? = some p ∧ g.cellOf? e.address = some c ∧
    c.value.isEmpty = false ∧ p.accepted.contains c.kind = false

/-- The input of a node that an edge feeds has another name than it had, or is gone. -/
def Replaced (n m : Node) (e : Edge) : Prop :=
  m.ports.inputNames[e.address.input.toNat]? ≠ n.ports.inputNames[e.address.input.toNat]?

/-- What a turn does to the edges when its node declares some gates: afterwards the inputs take
the kinds of the gates, each that is attached shows one of its kinds or nothing, and the edges
that are gone are those into the node whose input was replaced or showed another kind. -/
structure Gated (gates : List Gate) (n m : Node) (before after : Graph) : Prop where
  declared : m.ports.inputs.map (fun p => (⟨p.name, p.accepted⟩ : Gate)) = gates
  accepts : ∀ p ∈ m.ports.inputs, ∀ a c, p.source = some a → after.cellOf? a = some c →
    c.value.isEmpty = false → p.accepted.contains c.kind = true
  edges : ∀ e, e ∈ after.edges.edges ↔ e ∈ before.edges.edges ∧
    ¬(e.consumer = m.id ∧ (Replaced n m e ∨ Refused before m e))

section Turns
variable {g : Graph} {id : NodeId} {n : Node} (hw : g.Wired) (hn : g.node? id = some n)
  (now : Moment)
include hw hn

/-- What an input reads from after a turn that does not stall. -/
theorem Wired.source?_takeTurn_iff (hfits : n.Fits) (hstalls : n.behavior.stalls = false)
    {i : Nat} {a : Address} :
    (n.takeTurn now (supplyOf g.nodes n)).1.ports.source? i = some a ↔
      n.ports.source? i = some a ∧
        (n.takeTurn now (supplyOf g.nodes n)).1.ports.inputNames[i]? = n.ports.inputNames[i]? ∧
        ∀ p c, (n.takeTurn now (supplyOf g.nodes n)).1.ports.inputs[i]? = some p →
          g.cellOf? a = some c → c.value.isEmpty = false → p.accepted.contains c.kind = true := by
  have hsupply := hw.supply_at? hn (d := (n.resizedTurn now).ports) (i := i) fun b hb =>
    ((Node.source?_resizedTurn now (supplyOf g.nodes n)).mp hb).1
  rw [Node.source?_takeTurn now _ hfits hstalls, hsupply]
  constructor
  · rintro ⟨ha, hkinds⟩
    obtain ⟨hbefore, hnames⟩ := (Node.source?_resizedTurn now _).mp ha
    refine ⟨hbefore, hnames, fun p c hp hc hvalue => hkinds p c hp ?_⟩
    rw [ha]
    simp [hc, hvalue]
  · rintro ⟨hbefore, hnames, hkinds⟩
    have ha := (Node.source?_resizedTurn now _).mpr ⟨hbefore, hnames⟩
    refine ⟨ha, fun p c hp hc => ?_⟩
    rw [ha] at hc
    obtain ⟨hcell, hvalue⟩ := Option.filter_eq_some_iff.mp (show (g.cellOf? a).filter _ = _ from hc)
    exact hkinds p c hp hcell (by simpa using hvalue)

theorem Wired.gated_runNode (hfits : n.Fits) (hstalls : n.behavior.stalls = false) :
    Gated (n.plan now).gates n (n.takeTurn now (supplyOf g.nodes n)).1 g (runNode now g id) where
  declared := Node.declared_takeTurn now _ hfits hstalls
  accepts p hp a c ha hc hvalue := by
    obtain ⟨i, hi⟩ := List.mem_iff_getElem?.mp hp
    have hsource := Directory.source?_eq_some.mpr ⟨p, hi, ha⟩
    obtain ⟨hbefore, -, hkinds⟩ := (hw.source?_takeTurn_iff hn now hfits hstalls).mp hsource
    have hapart : a.producer ≠ id := hw.apart id i a (source?_eq_some.mpr ⟨n, hn, hbefore⟩)
    rw [cellOf?_runNode hn now hapart] at hc
    exact hkinds p c hi hc hvalue
  edges e := by
    have hid : (n.takeTurn now (supplyOf g.nodes n)).1.id = id :=
      (Node.takeTurn_id now _ n).trans (id_of_node? hn)
    rw [(hw.turn now id).edge_iff, hw.edge_iff, hid, source?, node?_runNode hn]
    by_cases hc : e.consumer = id
    · rw [if_pos hc, hc, source?, hn]
      show (n.takeTurn now (supplyOf g.nodes n)).1.ports.source? _ = some e.address ↔
        n.ports.source? _ = some e.address ∧ _
      rw [hw.source?_takeTurn_iff hn now hfits hstalls]
      refine and_congr_right fun _ => ?_
      constructor
      · rintro ⟨hnames, hkinds⟩ ⟨-, hreplaced | ⟨p, c, hp, hcell, hvalue, hkind⟩⟩
        · exact hreplaced hnames
        · rw [hkinds p c hp hcell hvalue] at hkind
          cases hkind
      · intro hkeep
        refine ⟨Classical.not_not.mp fun hnames => hkeep ⟨rfl, Or.inl hnames⟩, ?_⟩
        intro p c hp hcell hvalue
        cases hkind : p.accepted.contains c.kind with
        | true => rfl
        | false => exact absurd ⟨rfl, Or.inr ⟨p, c, hp, hcell, hvalue, hkind⟩⟩ hkeep
    · rw [if_neg hc]
      simp [hc, source?]

end Turns

/-- Gating is exact: in every frame of a graph that is made of new nodes and of saved scenes, the
turn of a node removes the edges whose inputs are replaced and those that bring a kind which the
node does not declare for them, unless it is a list with a formula that does not compile. -/
theorem gated_inFrame {g : Graph} (h : g.Authored) (poll : Poll) (f : Clock → Clock)
    {done rest : List NodeId} {id : NodeId} (hids : g.ids = done ++ id :: rest) :
    ∃ n m, (g.inFrame poll f done).node? id = some n ∧
      (g.inFrame poll f (done ++ [id])).node? id = some m ∧
      (n.behavior.stalls = false →
        Gated (n.plan ((g.withClock f).moment poll)).gates n m (g.inFrame poll f done)
          (g.inFrame poll f (done ++ [id]))) := by
  obtain ⟨⟨hw, hshape⟩, -⟩ := h.reachable.sustained_inFrame poll f hids
  obtain ⟨n, hn⟩ := hshape.exists_next
  have hfits : n.Fits := h.fits.inFrame Node.fits_lasting h.reachable poll f hids id n hn
  rw [inFrame_append]
  refine ⟨n, _, hn, ?_, hw.gated_runNode hn _ hfits⟩
  rw [node?_runNode hn, if_pos rfl]

end Graph

end Patchbay

/-! ## With the standard engine -/

namespace Patchbay.Graph

/-- A number that feeds the position of a camera. -/
def misfit : Graph :=
  run [.create .value, .create .camera, .connect ⟨0⟩ 0 ⟨2⟩ 0] (empty "misfit")

/-- In the first frame the camera declares vectors for its inputs and loses the number. -/
theorem gated_inFrame_of_misfit :
    misfit.Authored ∧ misfit.ids = [⟨0⟩] ++ ⟨2⟩ :: [] ∧
      (⟨⟨2⟩, ⟨⟨0⟩, 0, 0⟩⟩ : Edge) ∈ (misfit.inFrame Poll.none (·.step 0) [⟨0⟩]).edges.edges ∧
      (⟨⟨2⟩, ⟨⟨0⟩, 0, 0⟩⟩ : Edge) ∉
        (misfit.inFrame Poll.none (·.step 0) ([⟨0⟩] ++ [⟨2⟩])).edges.edges := by
  have hauthored : misfit.Authored := authored_run (by decide) (.empty "misfit")
  have hids : misfit.ids = [⟨0⟩] ++ ⟨2⟩ :: [] := by decide
  refine ⟨hauthored, hids, by decide, fun hmem => ?_⟩
  obtain ⟨n, m, hn, hm, hgated⟩ := gated_inFrame hauthored Poll.none (·.step 0) hids
  cases hn
  cases hm
  refine (((hgated rfl).edges _).mp hmem).2 ⟨rfl, Or.inr ?_⟩
  exact ⟨_, _, rfl, rfl, rfl, by decide⟩

end Patchbay.Graph
