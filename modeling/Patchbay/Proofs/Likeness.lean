import Patchbay.Proofs.Freshness
import Patchbay.Proofs.Scenes
/-!
What a turn depends on.

Two nodes are alike (`Node.Alike`) when a scene keeps the same of both and
their inputs read from the same addresses.  The flags of their outputs, the
marks of new connections, the errors and the kinds that inputs last took may
differ.  Turns in which the same values are supplied leave alike nodes alike
when their behaviors are related by a simulation (`Behavior.Simulation`).  For
the types whose nodes resume (`NodeType.resumes`) it is enough that a scene
keeps the same of both.  The one place where the flags matter is a relay, which
copies what it reads only when it is flagged or marked; a relay whose copy is
good has the same on its output whether it copies or not
(`Behavior.alike_posts`).
-/

namespace Patchbay

namespace Directory

/-! ## Ports -/

/-- The outputs by name with their values, whether flagged or not. -/
def shown (d : Directory) : List (String × Value) := d.outputs.map fun o => (o.name, o.cell.value)

/-- The same names, sources, paddings and values. -/
structure Alike (d k : Directory) : Prop where
  names : k.inputNames = d.inputNames
  source : ∀ i, k.source? i = d.source? i
  inputPadding : k.inputPadding = d.inputPadding
  outputPadding : k.outputPadding = d.outputPadding
  shown : k.shown = d.shown

theorem Alike.refl (d : Directory) : d.Alike d := ⟨rfl, fun _ => rfl, rfl, rfl, rfl⟩

variable {d k : Directory}

theorem Alike.symm (h : d.Alike k) : k.Alike d where
  names := h.names.symm
  source i := (h.source i).symm
  inputPadding := h.inputPadding.symm
  outputPadding := h.outputPadding.symm
  shown := h.shown.symm

theorem Alike.trans {d' : Directory} (h : d.Alike k) (h' : k.Alike d') : d.Alike d' where
  names := h'.names.trans h.names
  source i := (h'.source i).trans (h.source i)
  inputPadding := h'.inputPadding.trans h.inputPadding
  outputPadding := h'.outputPadding.trans h.outputPadding
  shown := h'.shown.trans h.shown

theorem outputNames_eq_shown (d : Directory) : d.outputNames = d.shown.map Prod.fst := by
  rw [shown, List.map_map]
  rfl

theorem value_cell? (d : Directory) (i : Nat) :
    (d.cell? i).map Cell.value = d.shown[i]?.map Prod.snd := by
  rw [cell?, shown, List.getElem?_map, Option.map_map, Option.map_map]
  rfl

theorem alike_clearDirty (d : Directory) : d.Alike d.clearDirty := by
  refine ⟨rfl, fun _ => rfl, rfl, rfl, ?_⟩
  rw [shown, clearDirty, List.map_map]
  rfl

theorem Alike.detach (h : d.Alike k) (i : Nat) :
    (d.modifyInput i InputPort.detach).Alike (k.modifyInput i InputPort.detach) where
  names := by rw [inputNames_detach, inputNames_detach, h.names]
  source j := by rw [source?_detach, source?_detach, h.source]
  inputPadding := h.inputPadding
  outputPadding := h.outputPadding
  shown := h.shown

/-- Which kinds an input takes does not count. -/
theorem alike_accept (d : Directory) (i : Nat) (kinds : KindSet) :
    d.Alike (d.modifyInput i fun p => { p with accepted := kinds }) where
  names := inputNames_modifyInput fun _ => rfl
  source := source?_modifyInput_of_source (fun p => show _ = p.source from rfl)
  inputPadding := rfl
  outputPadding := rfl
  shown := rfl

theorem Alike.setInputs (h : d.Alike k) (names : List String) :
    (d.setInputs names).1.Alike (k.setInputs names).1 where
  names := by rw [inputNames_setInputs, inputNames_setInputs]
  source i := by
    apply Option.ext
    intro a
    rw [source?_setInputs, source?_setInputs, h.source, h.names]
  inputPadding := by
    show padding ((renamed k.inputs names).map _) = padding ((renamed d.inputs names).map _)
    rw [inputNames_renamed, inputNames_renamed]
  outputPadding := by
    show padding k.outputNames = padding d.outputNames
    rw [outputNames_eq_shown, outputNames_eq_shown, h.shown]
  shown := h.shown

/-! ## Posts -/

theorem shown_modifyCell {f : Cell → Cell} {g : Value → Value} (hf : ∀ c, (f c).value = g c.value)
    (d : Directory) (i : Nat) :
    (d.modifyCell i f).shown = d.shown.modify i fun x => (x.1, g x.2) := by
  apply List.ext_getElem?
  intro j
  simp only [shown, modifyCell, List.getElem?_map, List.getElem?_modify]
  cases d.outputs[j]? with
  | none => rfl
  | some o =>
      by_cases h : i = j
      · simp [h, hf]
      · simp [h]

/-- What is left of a value when another one is published. -/
def refreshed (v old : Value) : Value := if old.same v then old else v

theorem value_publish (c : Cell) (v : Value) : (c.publish v).value = refreshed v c.value := by
  unfold Cell.publish refreshed
  split <;> rfl

theorem Alike.modifyCell (h : d.Alike k) {f : Cell → Cell} {g : Value → Value}
    (hf : ∀ c, (f c).value = g c.value) (i : Nat) :
    (d.modifyCell i f).Alike (k.modifyCell i f) where
  names := h.names
  source := h.source
  inputPadding := h.inputPadding
  outputPadding := h.outputPadding
  shown := by rw [shown_modifyCell hf, shown_modifyCell hf, h.shown]

theorem Alike.post (h : d.Alike k) (p : Post) : (d.post p).Alike (k.post p) := by
  cases p with
  | publish i v => exact h.modifyCell (fun c => value_publish c v) i
  | write i v => exact h.modifyCell (f := (·.set v)) (g := fun _ => v) (fun _ => rfl) i

theorem Alike.posts (h : d.Alike k) (posts : List Post) :
    (posts.foldl Directory.post d).Alike (posts.foldl Directory.post k) := by
  induction posts generalizing d k with
  | nil => exact h
  | cons p posts ih => exact ih (h.post p)

theorem refreshed_of_agrees {out v : Value} (h : out.Agrees v) : refreshed v out = out := by
  unfold refreshed
  split
  · rfl
  · next hne =>
      rcases h with h | h
      · exact absurd h hne
      · exact h.symm

/-- Publishing what an output agrees with already changes nothing but a flag. -/
theorem alike_publish {out v : Value} (hout : d.firstValue? = some out) (h : out.Agrees v) :
    d.Alike (d.post (.publish 0 v)) := by
  refine ⟨rfl, fun _ => rfl, rfl, rfl, ?_⟩
  show (d.modifyCell 0 _).shown = d.shown
  rw [shown_modifyCell fun c => value_publish c v]
  rw [firstValue?, value_cell?] at hout
  cases hshown : d.shown with
  | nil => rfl
  | cons x rest =>
      rw [hshown] at hout
      cases hout
      show (x.1, refreshed v x.2) :: rest = x :: rest
      rw [refreshed_of_agrees h]

end Directory

/-! ## What is supplied -/

/-- The same values by index, whether flagged or not. -/
def Supply.Alike (s s' : Supply) : Prop :=
  ∀ i : Nat, (s'[i]?.bind id).map Cell.value = (s[i]?.bind id).map Cell.value

theorem Supply.Alike.at? {s s' : Supply} (h : s.Alike s') {d k : Directory}
    (hsource : ∀ i, k.source? i = d.source? i) (i : Nat) :
    (s'.at? k i).map Cell.value = (s.at? d i).map Cell.value := by
  unfold Supply.at?
  rw [Directory.isConnected_eq, Directory.isConnected_eq, hsource]
  split
  · rw [Cell.value_filter, Cell.value_filter, h i]
  · rfl

theorem Supply.Alike.named? {s s' : Supply} (h : s.Alike s') {d k : Directory}
    (hnames : k.inputNames = d.inputNames) (hsource : ∀ i, k.source? i = d.source? i)
    (name : String) : (s'.named? k name).map Cell.value = (s.named? d name).map Cell.value := by
  unfold Supply.named?
  rw [Directory.inputIndex?_congr hnames]
  cases d.inputIndex? name with
  | none => rfl
  | some i => exact h.at? hsource i

namespace Turn

variable {t u : Turn} {s s' : Supply}

theorem alike_resize (h : t.ports.Alike u.ports) (names : Option (List String)) :
    (t.resize names).ports.Alike (u.resize names).ports := by
  cases names with
  | none => exact h
  | some names => exact h.setInputs names

/-- A gate takes the same sources when the same values come. -/
theorem alike_hold (hs : s.Alike s') (h : t.ports.Alike u.ports) (gate : Gate) :
    (t.hold s gate).ports.Alike (u.hold s' gate).ports := by
  unfold Turn.hold
  rw [Directory.inputIndex?_congr h.names]
  cases t.ports.inputIndex? gate.input with
  | none => exact h
  | some i =>
      have hkind : (s'.at? u.ports i).map Cell.kind = (s.at? t.ports i).map Cell.kind := by
        have hvalue := congrArg (Option.map Value.kind) (hs.at? h.source i)
        rw [Option.map_map, Option.map_map] at hvalue
        exact hvalue
      have hnoted := (t.ports.alike_accept i gate.kinds).symm.trans
        (h.trans (u.ports.alike_accept i gate.kinds))
      simp only [hkind]
      split
      · exact hnoted.detach i
      · exact hnoted

theorem alike_holdAll (hs : s.Alike s') (gates : List Gate) (h : t.ports.Alike u.ports) :
    (t.holdAll s gates).ports.Alike (u.holdAll s' gates).ports := by
  unfold Turn.holdAll
  induction gates generalizing t u with
  | nil => exact h
  | cons gate gates ih => exact ih (alike_hold hs h gate)

end Turn

/-! ## Simulations of behaviors -/

namespace Behavior

variable [Formula.Engine]

/-- What a turn amounts to on the outputs: a relay passes on whatever it reads. -/
def effect (now : Moment) (id : NodeId) (b : Behavior) (r : Readings) : List Post :=
  match b with
  | display _ => ((r.value? relayInput).map (Post.publish 0)).toList
  | feedback _ => ((r.value? relayInput).map (Post.publish 0)).toList
  | b => ((b.plan now id).finish r).2

/-- A relation of behaviors that turns keep, at whatever times, as long as both find the same
values on their inputs: related behaviors look alike in a scene, ask for the same inputs and kinds,
and come to the same effect.  They need not be told of lost sources together. -/
structure Simulation (R : Behavior → Behavior → Prop) : Prop where
  reloaded : ∀ {b b'}, R b b' → b'.reloaded = b.reloaded
  plan : ∀ {b b'}, R b b' → ∀ now now' id id',
    (b'.plan now' id').inputs = (b.plan now id).inputs ∧
      (b'.plan now' id').gates = (b.plan now id).gates
  finish : ∀ {b b'}, R b b' → ∀ now now' id id' {r r'}, r'.value? = r.value? →
    R ((b.plan now id).finish r).1 ((b'.plan now' id').finish r').1 ∧
      b'.effect now' id' r' = b.effect now id r
  left : ∀ {b b'}, R b b' → ∀ input, R (b.disconnected input) b'
  right : ∀ {b b'}, R b b' → ∀ input, R b (b'.disconnected input)

namespace Simulation

variable {R S : Behavior → Behavior → Prop}

theorem or (hR : Simulation R) (hS : Simulation S) : Simulation fun b b' => R b b' ∨ S b b' where
  reloaded h := h.elim hR.reloaded hS.reloaded
  plan h now now' id id' :=
    h.elim (hR.plan · now now' id id') (hS.plan · now now' id id')
  finish h now now' id id' _ _ hr := by
    rcases h with h | h
    · obtain ⟨hnext, heffect⟩ := hR.finish h now now' id id' hr
      exact ⟨Or.inl hnext, heffect⟩
    · obtain ⟨hnext, heffect⟩ := hS.finish h now now' id id' hr
      exact ⟨Or.inr hnext, heffect⟩
  left h input := h.imp (hR.left · input) (hS.left · input)
  right h input := h.imp (hR.right · input) (hS.right · input)

/-- Each side is told of the sources that it has lost. -/
theorem disconnectedAll (hR : Simulation R) {b b' : Behavior} (h : R b b')
    (lost lost' : List Dropped) : R (b.disconnectedAll lost) (b'.disconnectedAll lost') := by
  have hleft : R (b.disconnectedAll lost) b' := by
    unfold Behavior.disconnectedAll
    induction lost generalizing b with
    | nil => exact h
    | cons d lost ih => exact ih (hR.left h d.name)
  unfold Behavior.disconnectedAll at hleft ⊢
  induction lost' generalizing b' with
  | nil => exact hleft
  | cons d lost' ih => exact ih (hR.right h d.name) (hR.right hleft d.name)

end Simulation

end Behavior

/-! ## Behaviors that resume -/

/-- The types of which nothing that a scene leaves out plays a part in later turns. -/
def NodeType.resumes : NodeType → Bool
  | .value | .vector | .color | .math | .listAccess | .camera | .display | .feedback | .render
  | .worldPos => true
  | .function | .list | .listJoin | .time | .mesh | .path => false

section Finishing
variable {r r' : Readings} (hr : r'.value? = r.value?)

theorem Constant.finish_plan (s : Constant) (r r' : Readings) :
    s.plan.finish r' = s.plan.finish r := by
  unfold plan
  cases s.pending with
  | none => rfl
  | some bits => rfl

include hr

theorem Camera.finish_congr (s : Camera) : s.finish r' = s.finish r := by
  simp only [finish, Readings.vector3?, hr]

theorem Collector.collect_congr (s : Collector) : s.collect r' = s.collect r := by
  simp only [collect, Readings.uint?, hr]

/-- The error of a sum is made anew in each turn. -/
theorem Arithmetic.finish_reloaded (s : Arithmetic) :
    (s.reloaded.finish r').1.reloaded = (s.finish r).1.reloaded ∧
      (s.reloaded.finish r').2 = (s.finish r).2 := by
  have hoperation : s.reloaded.operation = s.operation := rfl
  unfold finish
  rw [hr, hoperation]
  cases s.operation.combine (r.value? "A") (r.value? "B") with
  | ok v => exact ⟨rfl, rfl⟩
  | error e => exact ⟨rfl, rfl⟩

/-- So is the error of a selector. -/
theorem Selector.finish_reloaded (s : Selector) :
    (s.reloaded.finish r').1.reloaded = (s.finish r).1.reloaded ∧
      (s.reloaded.finish r').2 = (s.finish r).2 := by
  have hrequested : s.reloaded.requested r' = s.requested r := by
    unfold requested
    rw [hr]
    rfl
  unfold finish
  rw [hr, hrequested]
  cases r.value? "list" with
  | none => exact ⟨rfl, rfl⟩
  | some list =>
      simp only
      cases list.listLength?.getD 0 with
      | zero => exact ⟨rfl, rfl⟩
      | succ length =>
          simp only
          cases list.element? (nearest (s.requested r) (length + 1)) with
          | none => exact ⟨rfl, rfl⟩
          | some v => exact ⟨rfl, rfl⟩

end Finishing

variable [Formula.Engine]

namespace Behavior

section Resuming
variable {b b' : Behavior} (hb : b.type.resumes = true) (now now' : Moment) (id id' : NodeId)
include hb

/-- A behavior that resumes asks for the same inputs and kinds after a load, at any time. -/
theorem plan_reloaded :
    (b.reloaded.plan now' id').inputs = (b.plan now id).inputs ∧
      (b.reloaded.plan now' id').gates = (b.plan now id).gates := by
  cases b with
  | function s | list s | listJoin s | time | mesh s | path s => exact nomatch hb
  | _ => exact ⟨rfl, rfl⟩

/-- From the same values it then comes to the same state and the same effect. -/
theorem finish_reloaded {r r' : Readings} (hr : r'.value? = r.value?) :
    ((b.reloaded.plan now' id').finish r').1.reloaded = ((b.plan now id).finish r).1.reloaded ∧
      b.reloaded.effect now' id' r' = b.effect now id r := by
  cases b with
  | value s =>
      have hsame := s.finish_plan r r'
      refine ⟨congrArg value (congrArg Prod.fst hsame), ?_⟩
      show (s.plan.finish r').2 = (s.plan.finish r).2
      rw [hsame]
  | vector s | color s | worldPos s => exact ⟨rfl, rfl⟩
  | math s =>
      obtain ⟨hstate, hposts⟩ := s.finish_reloaded hr
      exact ⟨congrArg math hstate, hposts⟩
  | listAccess s =>
      obtain ⟨hstate, hposts⟩ := s.finish_reloaded hr
      exact ⟨congrArg listAccess hstate, hposts⟩
  | display s | feedback s =>
      refine ⟨rfl, ?_⟩
      show ((r'.value? relayInput).map _).toList = ((r.value? relayInput).map _).toList
      rw [hr]
  | camera s =>
      have hsame := s.switched.finish_congr hr
      refine ⟨congrArg camera (congrArg Prod.fst hsame), ?_⟩
      show (s.switched.finish r').2 = (s.switched.finish r).2
      rw [hsame]
  | render s =>
      refine ⟨rfl, ?_⟩
      show [Post.publish 0 (.render (s.collect r'))] = [Post.publish 0 (.render (s.collect r))]
      rw [s.collect_congr hr]
  | function s | list s | listJoin s | time | mesh s | path s => exact nomatch hb

end Resuming

/-- A scene keeps the same of both behaviors, and they resume. -/
def Resumed (b b' : Behavior) : Prop := b.type.resumes = true ∧ b'.reloaded = b.reloaded

theorem Resumed.right {b b' : Behavior} (h : Resumed b b') : b'.type.resumes = true := by
  rw [← b'.type_reloaded, h.2, b.type_reloaded]
  exact h.1

/-- Behaviors that resume and of which a scene keeps the same go on alike. -/
theorem simulation_resumed : Simulation Resumed where
  reloaded h := h.2
  plan {b b'} h now now' id id' := by
    obtain ⟨hinputs, hgates⟩ := plan_reloaded h.1 now now' id id'
    obtain ⟨hinputs', hgates'⟩ := plan_reloaded h.right now' now' id' id'
    rw [h.2] at hinputs' hgates'
    exact ⟨hinputs'.symm.trans hinputs, hgates'.symm.trans hgates⟩
  finish {b b'} h now now' id id' r r' hr := by
    obtain ⟨hstate, heffect⟩ := finish_reloaded h.1 now now' id id' hr
    obtain ⟨hstate', heffect'⟩ := finish_reloaded h.right now' now' id' id'
      (rfl : r'.value? = r'.value?)
    rw [h.2] at hstate' heffect'
    refine ⟨⟨?_, hstate'.symm.trans hstate⟩, heffect'.symm.trans heffect⟩
    rw [type_finish]
    exact h.1
  left {b b'} h input := by
    refine ⟨?_, ?_⟩
    · rw [type_disconnected]
      exact h.1
    · rw [reloaded_disconnected]
      exact h.2
  right {b b'} h input := ⟨h.1, (reloaded_disconnected b' input).trans h.2⟩

omit [Formula.Engine] in
theorem alike_relayed {refresh : Bool} {r : Readings} {d : Directory}
    (h : ∀ c, r.cell relayInput = some c →
      c.dirty = true ∨ refresh = true ∨ ∃ o, d.firstValue? = some o ∧ o.Agrees c.value) :
    ((relayed relayInput refresh r).2.foldl Directory.post d).Alike
      (((r.value? relayInput).map (Post.publish 0)).toList.foldl Directory.post d) := by
  unfold relayed Readings.value?
  cases hc : r.cell relayInput with
  | none => exact Directory.Alike.refl d
  | some c =>
      by_cases hd : c.dirty = true
      · simp only [hd, if_true]
        exact Directory.Alike.refl _
      · cases refresh with
        | true =>
            simp only [hd, Bool.false_eq_true, if_false, if_true]
            exact Directory.Alike.refl _
        | false =>
            have hgood : ∃ o, d.firstValue? = some o ∧ o.Agrees c.value := by
              simpa [hd] using h c hc
            obtain ⟨o, ho, hagrees⟩ := hgood
            simp only [hd, Bool.false_eq_true, if_false]
            exact Directory.alike_publish ho hagrees

/-- What a turn posts amounts to its effect. -/
theorem alike_posts {b : Behavior} (now : Moment) (id : NodeId) {r : Readings} {d : Directory}
    (h : b.Copied d.firstValue? r) :
    (((b.plan now id).finish r).2.foldl Directory.post d).Alike
      ((b.effect now id r).foldl Directory.post d) := by
  cases b with
  | display s => exact alike_relayed (h s.refresh rfl)
  | feedback s => exact alike_relayed (h s.refresh rfl)
  | _ => exact Directory.Alike.refl _

end Behavior

/-! ## Turns of alike nodes -/

namespace Node

/-- A scene keeps the same of both nodes, and they read from the same addresses. -/
structure Alike (n m : Node) : Prop where
  content : m.content = n.content
  source : ∀ i, m.ports.source? i = n.ports.source? i

variable {n m : Node} {now now' : Moment} {s s' : Supply}

theorem Alike.ports (h : n.Alike m) : n.ports.Alike m.ports where
  names := congrArg Content.inputNames h.content
  source := h.source
  inputPadding := congrArg Content.inputPadding h.content
  outputPadding := congrArg Content.outputPadding h.content
  shown := congrArg Content.outputs h.content

/-- Alike nodes to which the like is done. -/
theorem Alike.change (h : n.Alike m) {d k : Directory} (hd : d.Alike k) {b b' : Behavior}
    (hb : b'.reloaded = b.reloaded) :
    Node.Alike { n with ports := d, behavior := b } { m with ports := k, behavior := b' } where
  content := by
    have htype : b'.type = b.type := by rw [← b'.type_reloaded, hb, b.type_reloaded]
    show ({ m.content with
      type := b'.type, inputNames := k.inputNames, inputPadding := k.inputPadding,
      outputPadding := k.outputPadding, outputs := k.shown, behavior := b'.reloaded } : Content) = _
    rw [h.content, htype, hd.names, hd.inputPadding, hd.outputPadding, hd.shown, hb]
    rfl
  source := hd.source

section Turns
variable {R : Behavior → Behavior → Prop} (hR : Behavior.Simulation R) (h : n.Alike m)
  (hb : R n.behavior m.behavior) (hs : s.Alike s')
include hR h hb hs

/-- Alike nodes hold their gates with the like result when the same values come. -/
theorem Alike.heldTurn (now now' : Moment) :
    (n.heldTurn now s).ports.Alike (m.heldTurn now' s').ports := by
  obtain ⟨hinputs, hgates⟩ := hR.plan hb now now' n.id m.id
  change (m.plan now').inputs = (n.plan now).inputs at hinputs
  change (m.plan now').gates = (n.plan now).gates at hgates
  unfold Node.heldTurn resizedTurn
  rw [hinputs, hgates]
  have hclear := n.ports.alike_clearDirty.symm.trans (h.ports.trans m.ports.alike_clearDirty)
  exact Turn.alike_holdAll hs _ (Turn.alike_resize hclear _)

/-- Turns of alike nodes that are supplied with the same values leave them alike, and their
behaviors related. -/
theorem Alike.takeTurn (hn : n.ports.Indexed) (hm : m.ports.Indexed)
    (hcopied : n.behavior.Copied n.ports.firstValue? (n.readings now s))
    (hcopied' : m.behavior.Copied m.ports.firstValue? (m.readings now' s')) :
    (n.takeTurn now s).1.Alike (m.takeTurn now' s').1 ∧
      R (n.takeTurn now s).1.behavior (m.takeTurn now' s').1.behavior := by
  have hheld := h.heldTurn hR hb hs now now'
  have hvalues : (m.readings now' s').value? = (n.readings now s).value? := by
    funext name
    exact hs.named? hheld.names hheld.source name
  obtain ⟨hstate, heffect⟩ := hR.finish hb now now' n.id m.id hvalues
  rw [← firstValue?_heldTurn hn] at hcopied
  rw [← firstValue?_heldTurn hm] at hcopied'
  have hposts := Behavior.alike_posts now n.id hcopied
  have hposts' := Behavior.alike_posts now' m.id hcopied'
  rw [heffect] at hposts'
  have hports := hposts.trans ((hheld.posts _).trans hposts'.symm)
  have hnext := hR.disconnectedAll hstate (n.heldTurn now s).dropped (m.heldTurn now' s').dropped
  rw [takeTurn_node, takeTurn_node]
  exact ⟨h.change hports (hR.reloaded hnext), hnext⟩

end Turns

end Node

end Patchbay
