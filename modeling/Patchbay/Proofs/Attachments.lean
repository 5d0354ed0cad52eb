import Patchbay.Formula.Basic
import Patchbay.Proofs.Gating
/-!
What a node remembers of a source.

A display remembers the name of its producer, and a path the curve through
the points it has read and the direction it has been given.  Each of these
belongs to one input (`Behavior.Recalls`), and none of them outlives the
source of that input.  Sources go in several ways.  Outside of a frame the
node is told at once.  In a turn it is told at the end, of each source under
the name that its input has, and a change of mode, which replaces the
inputs, has then dropped what the path remembered already.
-/

namespace Patchbay

/-! ## What is remembered of an input -/

namespace Mover

/-- The path has a curve through points, or a direction of its own. -/
def Recalls (input : String) (m : Mover) : Prop :=
  (input = PathMode.pointsInput ∧ m.spline.isSome = true) ∨
    (input = PathMode.directionInput ∧ m.forward ≠ defaultForward)

variable {m : Mover} {input : String}

theorem recalls_of_disconnected {name : String} (h : (m.disconnected name).Recalls input) :
    m.Recalls input ∧ name ≠ input := by
  unfold disconnected at h
  split at h
  · next hpoints =>
      rcases h with ⟨-, hspline⟩ | ⟨hinput, hforward⟩
      · exact nomatch hspline
      · refine ⟨Or.inr ⟨hinput, hforward⟩, ?_⟩
        rw [hpoints, hinput]
        decide
  · next hpoints =>
      split at h
      · rcases h with ⟨hinput, hspline⟩ | ⟨-, hforward⟩
        · exact ⟨Or.inl ⟨hinput, hspline⟩, hinput ▸ hpoints⟩
        · exact absurd rfl hforward
      · next hdirection =>
          refine ⟨h, ?_⟩
          rcases h with ⟨hinput, -⟩ | ⟨hinput, -⟩
          · exact hinput ▸ hpoints
          · exact hinput ▸ hdirection

theorem recalls_of_connected {name : String} (h : (m.connected name).Recalls input) :
    m.Recalls input := by
  unfold connected at h
  split at h
  · rcases h with ⟨-, hspline⟩ | hforward
    · exact nomatch hspline
    · exact Or.inr hforward
  · exact h

/-- A path that takes over another mode starts without memories. -/
theorem recalls_of_switched (h : m.switched.Recalls input) :
    m.Recalls input ∧ m.plan.inputs = none := by
  rcases m.switched_cases with ⟨hinputs, hswitched⟩ | ⟨-, hspline, hforward⟩
  · rw [hswitched] at h
    exact ⟨h, hinputs⟩
  · rcases h with ⟨-, hsome⟩ | ⟨-, hother⟩
    · rw [hspline] at hsome
      exact nomatch hsome
    · exact absurd hforward hother

/-- The spline is made of what is read under its name. -/
theorem spline_finish_cases (m : Mover) (r : Readings) :
    (m.finish r).1.spline = m.spline ∨ (r.cell PathMode.pointsInput).isSome = true := by
  cases hc : r.cell PathMode.pointsInput with
  | some c => exact Or.inr rfl
  | none =>
      left
      unfold finish
      cases m.mode with
      | closedSpline => simp only [finishSpline, hc, missingPoints]
      | alongVector =>
          simp only [placed, turned]
          split
          · split
            · rfl
            · rfl
          · rfl
      | _ => rfl

/-- So is the direction. -/
theorem forward_finish_cases (m : Mover) (r : Readings) :
    (m.finish r).1.forward = m.forward ∨ (r.cell PathMode.directionInput).isSome = true := by
  cases hc : r.cell PathMode.directionInput with
  | some c => exact Or.inr rfl
  | none =>
      left
      unfold finish
      cases m.mode with
      | closedSpline =>
          simp only [finishSpline]
          split
          · rfl
          · split
            · simp only [placed, refitted]
              split <;> rfl
            · simp only [missingPoints, refitted]
              split <;> rfl
      | alongVector =>
          have hnone : r.vector3? PathMode.directionInput = none := by
            rw [Readings.vector3?, Readings.value?, hc]
            rfl
          simp only [placed, turned, hnone]
      | _ => rfl

theorem recalls_of_finish {r : Readings} (h : (m.finish r).1.Recalls input) :
    m.Recalls input ∨ (r.cell input).isSome = true := by
  rcases h with ⟨rfl, hspline⟩ | ⟨rfl, hforward⟩
  · rcases m.spline_finish_cases r with hsame | hread
    · rw [hsame] at hspline
      exact Or.inl (Or.inl ⟨rfl, hspline⟩)
    · exact Or.inr hread
  · rcases m.forward_finish_cases r with hsame | hread
    · rw [hsame] at hforward
      exact Or.inl (Or.inr ⟨rfl, hforward⟩)
    · exact Or.inr hread

end Mover

variable [Formula.Engine]

namespace Behavior

/-- The behavior remembers something of the source of an input. -/
def Recalls (input : String) : Behavior → Prop
  | display d => input = relayInput ∧ d.producer.isSome = true
  | path m => m.Recalls input
  | _ => False

variable {b : Behavior} {input : String}

/-- Told of the loss of a source, a behavior remembers nothing of the input, and of others no more
than before. -/
theorem recalls_of_disconnected {name : String} (h : (b.disconnected name).Recalls input) :
    b.Recalls input ∧ name ≠ input := by
  cases b with
  | display d => exact nomatch h.2
  | path m => exact Mover.recalls_of_disconnected h
  | _ => exact h.elim

theorem recalls_of_disconnectedAll {lost : List Dropped}
    (h : (b.disconnectedAll lost).Recalls input) :
    b.Recalls input ∧ ∀ x ∈ lost, x.name ≠ input := by
  unfold disconnectedAll at h
  induction lost generalizing b with
  | nil => exact ⟨h, by simp⟩
  | cons d lost ih =>
      obtain ⟨hfirst, hrest⟩ := ih h
      obtain ⟨hb, hname⟩ := recalls_of_disconnected hfirst
      refine ⟨hb, ?_⟩
      intro x hx
      rcases List.mem_cons.mp hx with rfl | hx
      · exact hname
      · exact hrest x hx

/-- A new source is remembered by a display at once, and by a path from its next turn on. -/
theorem recalls_of_connected {name : String} {p : ProducerInfo}
    (h : (b.connected name p).Recalls input) :
    b.Recalls input ∨ (b.type = .display ∧ input = relayInput) := by
  cases b with
  | display d => exact Or.inr ⟨rfl, h.1⟩
  | path m => exact Or.inl (Mover.recalls_of_connected h)
  | _ => exact Or.inl h

theorem recalls_connected (h : b.type = .display) (name : String) (p : ProducerInfo) :
    (b.connected name p).Recalls relayInput := by
  cases b with
  | display d => exact ⟨rfl, rfl⟩
  | _ => exact nomatch h

/-- A setting does not change what is remembered. -/
theorem recalls_set (s : Setting) : (s.onBehavior b).Recalls input ↔ b.Recalls input := by
  cases b with
  | display d => cases s <;> rfl
  | path m => cases s <;> rfl
  | _ => cases s <;> rfl

/-- After a turn a behavior remembers what it read in it, or what it remembered before if the
inputs have stayed. -/
theorem recalls_of_finish {now : Moment} {id : NodeId} {r : Readings}
    (h : ((b.plan now id).finish r).1.Recalls input) :
    (b.Recalls input ∧ (b.plan now id).inputs = none) ∨ (r.cell input).isSome = true := by
  cases b with
  | display d => exact Or.inl ⟨h, rfl⟩
  | path m =>
      rcases Mover.recalls_of_finish h with hswitched | hread
      · exact Or.inl (Mover.recalls_of_switched hswitched)
      · exact Or.inr hread
  | _ => exact h.elim

theorem not_recalls_initial (t : NodeType) : ¬(initial t).Recalls input := by
  cases t with
  | display => exact fun h => nomatch h.2
  | path =>
      rintro (⟨-, hspline⟩ | ⟨-, hforward⟩)
      · exact nomatch hspline
      · exact hforward rfl
  | _ => exact id

/-- Nothing of it is kept in a scene. -/
theorem not_recalls_reloaded (b : Behavior) : ¬b.reloaded.Recalls input := by
  cases b with
  | display d => exact fun h => nomatch h.2
  | path m =>
      rintro (⟨-, hspline⟩ | ⟨-, hforward⟩)
      · exact nomatch hspline
      · exact hforward rfl
  | _ => exact id

end Behavior

/-! ## Nodes -/

namespace Node

/-- What a node remembers belongs to inputs that are attached, and a display with a source
remembers it. -/
structure Tethered (n : Node) : Prop where
  fits : n.Fits
  attached : ∀ input, n.behavior.Recalls input → (n.sourceNamed? input).isSome = true
  recalls : n.type = .display → (n.sourceNamed? relayInput).isSome = true →
    n.behavior.Recalls relayInput

variable {n : Node}

/-- Nothing is attached to a fresh node, so it has nothing to remember. -/
theorem tethered_of_loose (hfits : n.Fits) (hn : n.ports.Loose)
    (hnone : ∀ input, ¬n.behavior.Recalls input) : n.Tethered where
  fits := hfits
  attached input h := absurd h (hnone input)
  recalls _ h := by
    obtain ⟨a, ha⟩ := Option.isSome_iff_exists.mp h
    obtain ⟨i, -, hs⟩ := sourceNamed?_eq_some.mp ha
    rw [hn i] at hs
    exact nomatch hs

theorem exists_display (h : n.type = .display) : ∃ d, n.behavior = .display d := by
  unfold type at h
  cases hb : n.behavior with
  | display d => exact ⟨d, rfl⟩
  | _ => rw [hb] at h; exact nomatch h

/-- A display has one input. -/
theorem Fits.names_of_display (h : n.Fits) (hn : n.type = .display) :
    n.ports.inputNames = [relayInput] := by
  obtain ⟨d, hb⟩ := exists_display hn
  refine h.names _ ?_
  rw [hb]
  rfl

theorem Fits.place_of_display (h : n.Fits) (hn : n.type = .display) {i : Nat} {p : InputPort}
    (hp : n.ports.inputs[i]? = some p) : i = 0 := by
  have hname : n.ports.inputNames[i]? = some p.name := by
    rw [Directory.inputNames, List.getElem?_map, hp]
    rfl
  rw [h.names_of_display hn] at hname
  cases i with
  | zero => rfl
  | succ i => simp at hname

/-- A source is found under a name as long as it stays at the place of the name. -/
theorem isSome_sourceNamed? {m : Node} {input : String}
    (hnames : m.ports.inputNames = n.ports.inputNames)
    (hsource : ∀ i a, n.ports.inputNames[i]? = some input → n.ports.source? i = some a →
      (m.ports.source? i).isSome = true)
    (h : (n.sourceNamed? input).isSome = true) : (m.sourceNamed? input).isSome = true := by
  obtain ⟨a, ha⟩ := Option.isSome_iff_exists.mp h
  obtain ⟨i, hi, hs⟩ := sourceNamed?_eq_some.mp ha
  obtain ⟨p, hp, hname⟩ := Directory.name_of_inputIndex? hi
  have hplace : n.ports.inputNames[i]? = some input := by
    rw [Directory.inputNames, List.getElem?_map, hp, ← hname]
    rfl
  rw [sourceNamed?, Directory.inputIndex?_congr hnames, hi]
  exact hsource i a hplace hs

theorem Tethered.detach (h : n.Tethered) (i : Nat) : (n.detach i).Tethered := by
  cases hp : n.ports.inputs[i]? with
  | none =>
      have hsame : n.detach i = n := by
        unfold Node.detach
        rw [hp]
      rw [hsame]
      exact h
  | some p =>
      have hbehavior : (n.detach i).behavior = n.behavior.disconnected p.name := by
        unfold Node.detach
        rw [hp]
        rfl
      refine ⟨fits_detach h.fits i, fun input hrecalls => ?_, fun hdisplay hsome => ?_⟩
      · rw [hbehavior] at hrecalls
        obtain ⟨hbefore, hname⟩ := Behavior.recalls_of_disconnected hrecalls
        refine isSome_sourceNamed? (n.inputNames_detach i) (fun j a hj hs => ?_)
          (h.attached input hbefore)
        have hother : i ≠ j := by
          rintro rfl
          rw [Directory.inputNames, List.getElem?_map, hp] at hj
          exact hname (Option.some.inj hj)
        rw [n.source?_detach, if_neg hother, hs]
        rfl
      · -- The one input of a display has just lost its source.
        rw [n.type_detach] at hdisplay
        obtain ⟨a, ha⟩ := Option.isSome_iff_exists.mp hsome
        obtain ⟨j, -, hs⟩ := sourceNamed?_eq_some.mp ha
        rw [n.source?_detach] at hs
        split at hs
        · simp at hs
        · next hother =>
            obtain ⟨q, hq, -⟩ := Directory.source?_eq_some.mp hs
            exact absurd ((h.fits.place_of_display hdisplay hp).trans
              (h.fits.place_of_display hdisplay hq).symm) hother

theorem Tethered.attach (h : n.Tethered) {e : Edge} {source : Node} {o : OutputPort}
    {p : InputPort} (hp : n.ports.inputs[e.address.input.toNat]? = some p) :
    (Graph.attachedNode e source o p n).Tethered := by
  have hports := Graph.ports_attachedNode e source o p n
  have hnames := Graph.inputNames_attachedNode e source o p n
  have hsource : ∀ j, (Graph.attachedNode e source o p n).ports.source? j =
      if e.address.input.toNat = j then some e.address else n.ports.source? j := by
    intro j
    rw [hports, Directory.source?_attach hp]
  refine ⟨fits_attached h.fits e source o p, fun input hrecalls => ?_, fun hdisplay _ => ?_⟩
  · rw [Graph.attachedNode_eq] at hrecalls
    rcases Behavior.recalls_of_connected hrecalls with hbefore | ⟨hdisplay, rfl⟩
    · have hrecalled : n.behavior.Recalls input := by
        split at hbefore
        · exact (Behavior.recalls_of_disconnected hbefore).1
        · exact hbefore
      refine isSome_sourceNamed? hnames (fun j a _ hs => ?_) (h.attached input hrecalled)
      rw [hsource]
      split
      · rfl
      · rw [hs]
        rfl
    · -- The edge feeds the one input of a display.
      have htype : n.type = .display := by
        rw [← hdisplay]
        split
        · exact (Behavior.type_disconnected _ _).symm
        · rfl
      have hzero := h.fits.place_of_display htype hp
      have hindex : n.ports.inputIndex? relayInput = some 0 := by
        rw [Directory.inputIndex?_eq, h.fits.names_of_display htype]
        rfl
      rw [sourceNamed?, Directory.inputIndex?_congr hnames, hindex, Option.bind_some, hsource,
        if_pos hzero]
      rfl
  · rw [Graph.attachedNode_eq] at hdisplay ⊢
    exact Behavior.recalls_connected ((Behavior.type_connected _ _ _).symm.trans hdisplay) _ _

theorem Tethered.set (h : n.Tethered) (s : Setting) : (s.onNode n).Tethered := by
  have hports := s.ports_onNode n
  have hsource : ∀ input, (s.onNode n).sourceNamed? input = n.sourceNamed? input := by
    intro input
    rw [sourceNamed?, sourceNamed?, hports]
  have hrecalls : ∀ input, (s.onNode n).behavior.Recalls input ↔ n.behavior.Recalls input := by
    intro input
    rcases s.onNode_cases n with ⟨_, _, hs⟩ | ⟨_, hs⟩ | hs
    · rw [hs]
    · rw [hs]
    · rw [hs]
      exact Behavior.recalls_set s
  refine ⟨fits_set h.fits s, fun input hrecalled => ?_, fun hdisplay hsome => ?_⟩
  · rw [hsource]
    exact h.attached input ((hrecalls input).mp hrecalled)
  · rw [s.type_onNode] at hdisplay
    rw [hsource] at hsome
    exact (hrecalls relayInput).mpr (h.recalls hdisplay hsome)

section Turns
variable {now : Moment} {supply : Supply}

/-- When the inputs stay, what a turn takes away is reported under the name of its input. -/
theorem name_of_dropped (hn : n.ports.Indexed) (hinputs : (n.plan now).inputs = none) {x : Dropped}
    (hx : x ∈ (n.heldTurn now supply).dropped) :
    n.ports.inputNames[x.address.input.toNat]? = some x.name ∧
      n.ports.source? x.address.input.toNat = some x.address := by
  have hstart : n.resizedTurn now = ⟨n.ports.clearDirty, []⟩ := by
    unfold resizedTurn
    rw [hinputs]
    rfl
  unfold heldTurn at hx
  rw [hstart] at hx
  rcases Turn.mem_dropped_holdAll hx with hx | ⟨-, i, hname, hsource⟩
  · exact nomatch hx
  · have hi : x.address.input.toNat = i := hn i _ hsource
    rw [hi]
    exact ⟨hname, hsource⟩

/-- What is read under a name has a source. -/
theorem sourced_of_read {input : String} (h : ((n.readings now supply).cell input).isSome = true) :
    ((n.takeTurn now supply).1.sourceNamed? input).isSome = true := by
  cases hsource : (n.takeTurn now supply).1.sourceNamed? input with
  | some a => rfl
  | none =>
      rw [show (n.readings now supply).cell input = none from cell_of_sourceNamed? hsource] at h
      exact nomatch h

/-- A source stays in a turn that replaces no inputs and reports none lost under its name. -/
theorem sourced_of_kept (hn : n.ports.Indexed) (hinputs : (n.plan now).inputs = none)
    {input : String} (hkept : ∀ x ∈ (n.heldTurn now supply).dropped, x.name ≠ input)
    (h : (n.sourceNamed? input).isSome = true) :
    ((n.takeTurn now supply).1.sourceNamed? input).isSome = true := by
  have hnames := takeTurn_inputNames now supply n
  rw [hinputs, Option.getD_none] at hnames
  refine isSome_sourceNamed? hnames (fun i a hi hs => ?_) h
  have hstays : (n.takeTurn now supply).1.ports.source? i = some a := by
    refine (takeTurn_source_iff now supply hn i a).mpr ⟨hs, ?_⟩
    rintro x hx rfl
    obtain ⟨hname, -⟩ := name_of_dropped hn hinputs hx
    rw [hn i _ hs, hi] at hname
    exact hkept x hx (Option.some.inj hname).symm
  rw [hstays]
  rfl

/-- What is remembered after a turn was read in it, or is of a source that has stayed. -/
theorem Tethered.attached_takeTurn (h : n.Tethered) (hn : n.ports.Indexed) {input : String}
    (hrecalls : (n.takeTurn now supply).1.behavior.Recalls input) :
    ((n.takeTurn now supply).1.sourceNamed? input).isSome = true := by
  rw [takeTurn_node] at hrecalls
  obtain ⟨hfinish, hlost⟩ := Behavior.recalls_of_disconnectedAll hrecalls
  rcases Behavior.recalls_of_finish hfinish with ⟨hbefore, hinputs⟩ | hread
  · exact sourced_of_kept hn hinputs hlost (h.attached input hbefore)
  · exact sourced_of_read hread

/-- A display that has a source after a turn has lost none in it. -/
theorem Tethered.recalls_takeTurn (h : n.Tethered) (hn : n.ports.Indexed) (hdisplay : n.type = .display)
    (hsome : ((n.takeTurn now supply).1.sourceNamed? relayInput).isSome = true) :
    (n.takeTurn now supply).1.behavior.Recalls relayInput := by
  obtain ⟨d, hb⟩ := exists_display hdisplay
  have hinputs : (n.plan now).inputs = none := inputs_of_mark? (by rw [hb]; rfl)
  have hnames := takeTurn_inputNames now supply n
  rw [hinputs, Option.getD_none] at hnames
  obtain ⟨a, ha⟩ := Option.isSome_iff_exists.mp hsome
  obtain ⟨i, hi, hs⟩ := sourceNamed?_eq_some.mp ha
  obtain ⟨hbefore, hkept⟩ := (takeTurn_source_iff now supply hn i a).mp hs
  have hremembered : n.behavior.Recalls relayInput := by
    refine h.recalls hdisplay (Option.isSome_iff_exists.mpr ⟨a, ?_⟩)
    exact sourceNamed?_eq_some.mpr ⟨i, (Directory.inputIndex?_congr hnames _).symm.trans hi, hbefore⟩
  have hnone : (n.heldTurn now supply).dropped = [] := by
    rw [List.eq_nil_iff_forall_not_mem]
    intro x hx
    obtain ⟨-, hsource⟩ := name_of_dropped hn hinputs hx
    obtain ⟨p, hp, -⟩ := Directory.source?_eq_some.mp hsource
    obtain ⟨q, hq, -⟩ := Directory.source?_eq_some.mp hbefore
    have hplace := (h.fits.place_of_display hdisplay hp).trans (h.fits.place_of_display hdisplay hq).symm
    rw [hplace, hbefore] at hsource
    exact hkept x hx (Option.some.inj hsource).symm
  rw [takeTurn_node, hnone]
  show (n.outcome now supply).1.Recalls relayInput
  unfold outcome plan
  rw [hb] at hremembered ⊢
  exact hremembered

theorem Tethered.takeTurn (h : n.Tethered) (hn : n.ports.Indexed) (now : Moment)
    (supply : Supply) : (n.takeTurn now supply).1.Tethered where
  fits := fits_takeTurn now supply h.fits
  attached _ hrecalls := h.attached_takeTurn hn hrecalls
  recalls hdisplay hsome := by
    rw [takeTurn_type] at hdisplay
    exact h.recalls_takeTurn hn hdisplay hsome

end Turns

theorem tethered_create (t : NodeType) (c : Context) (id : NodeId) :
    Tethered { (create t c).1 with id } :=
  tethered_of_loose (fits_create t c id) (Node.fresh_create t c id).loose fun _ =>
    Behavior.not_recalls_initial t

end Node

namespace Graph

/-- Nothing that edits and turns do leaves a node with a memory of a source that is gone. -/
theorem tethered_upkeep : Upkeep Node.Tethered Standing fun _ g => g.Throughout Node.Tethered :=
  throughout_upkeep (fun h hn => h.steady hn) (fun _ i h => h.detach i)
    (fun _ _ _ _ _ hi h => h.attach hi)
    (fun _ s h => h.set s) fun _ now supply hn _ h => h.takeTurn hn now supply

theorem Authored.tethered {g : Graph} (h : g.Authored) : g.Throughout Node.Tethered := by
  have hupkeep : Upkeep (fun n => (∃ t, n.Fresh t) ∧ n.Tethered) Always
      fun turns g => Standing turns g ∧ g.Throughout Node.Tethered :=
    (standing_invariant.upkeep.mono fun _ hn => hn.1).and (tethered_upkeep.mono fun _ hn => hn.2)
  induction h with
  | empty name =>
      intro x n hn
      exact nomatch hn
  | @edit g a ha h ih =>
      refine (hupkeep.apply (fun n hn => ⟨Action.fresh_of_brings hn, ?_⟩)
        ⟨h.reachable.standing, ih⟩).2
      cases a with
      | create t =>
          cases hn
          exact Node.tethered_create t g.context _
      | add t c =>
          cases hn
          exact Node.tethered_create t c _
      | load bytes => exact nomatch ha
      | _ => exact hn.elim
  | @load g saved hsaved hs h ihsaved _ =>
      refine (hupkeep.load g fun n hn => ?_).2
      obtain ⟨t, hfresh⟩ := Action.fresh_of_brings hn
      obtain ⟨x, k, hk, rfl⟩ := hsaved.reachable.brings_save hs hn
      exact ⟨⟨t, hfresh⟩, Node.tethered_of_loose (Node.fits_reloaded (ihsaved x k hk).fits)
        hfresh.loose fun _ => k.behavior.not_recalls_reloaded⟩

/-! ## Edges -/

/-- An edge of the table feeds the input of a name. -/
def HasEdge (g : Graph) (x : NodeId) (input : String) : Prop :=
  ∃ e ∈ g.edges.edges, e.consumer = x ∧ ∃ n, g.node? x = some n ∧
    n.ports.inputIndex? input = some e.address.input.toNat

/-- The input has a source when an edge feeds it. -/
theorem Wired.hasEdge_iff {g : Graph} (h : g.Wired) {x : NodeId} {n : Node}
    (hn : g.node? x = some n) (input : String) :
    g.HasEdge x input ↔ (n.sourceNamed? input).isSome = true := by
  constructor
  · rintro ⟨e, he, rfl, m, hm, hi⟩
    cases hn.symm.trans hm
    obtain ⟨m, hm, hs⟩ := source?_eq_some.mp ((h.edge_iff e).mp he)
    cases hn.symm.trans hm
    exact Option.isSome_iff_exists.mpr ⟨_, Node.sourceNamed?_eq_some.mpr ⟨_, hi, hs⟩⟩
  · intro hsome
    obtain ⟨a, ha⟩ := Option.isSome_iff_exists.mp hsome
    obtain ⟨i, hi, hs⟩ := Node.sourceNamed?_eq_some.mp ha
    have hsource : g.source? x i = some a := source?_eq_some.mpr ⟨n, hn, hs⟩
    have hindex := h.indexed x i a hsource
    subst hindex
    exact ⟨⟨x, a⟩, (h.edge_iff ⟨x, a⟩).mpr hsource, rfl, n, hn, hi⟩

/-- What is remembered of a source goes with the edge: between actions a display has the name of a
producer exactly when an edge feeds its input, and a path has a curve or a direction of its own
only when an edge feeds the input for its points or its direction. -/
theorem remembers_only_attached {g : Graph} (h : g.Authored) {x : NodeId} {n : Node}
    (hn : g.node? x = some n) :
    (∀ d, n.behavior = .display d →
      (d.producer.isSome = true ↔ g.HasEdge x relayInput)) ∧
    ∀ m, n.behavior = .path m →
      (m.spline.isSome = true → g.HasEdge x PathMode.pointsInput) ∧
        (m.forward ≠ Mover.defaultForward → g.HasEdge x PathMode.directionInput) := by
  have hw := h.reachable.wired
  have htethered := h.tethered x n hn
  refine ⟨fun d hb => ?_, fun m hb => ⟨fun hspline => ?_, fun hforward => ?_⟩⟩
  · rw [hw.hasEdge_iff hn]
    constructor
    · intro hproducer
      exact htethered.attached relayInput (by rw [hb]; exact ⟨rfl, hproducer⟩)
    · intro hsome
      have hrecalls := htethered.recalls (by rw [Node.type, hb]; rfl) hsome
      rw [hb] at hrecalls
      exact hrecalls.2
  · rw [hw.hasEdge_iff hn]
    exact htethered.attached _ (by rw [hb]; exact Or.inl ⟨rfl, hspline⟩)
  · rw [hw.hasEdge_iff hn]
    exact htethered.attached _ (by rw [hb]; exact Or.inr ⟨rfl, hforward⟩)

end Graph

end Patchbay

/-! ## With the standard engine -/

namespace Patchbay.Graph

/-- A display that is fed by a constant, and a path along a direction that it reads. -/
def steered : Graph :=
  run [.create .value, .create .display, .connect ⟨0⟩ 0 ⟨2⟩ 0, .create .worldPos, .create .path,
    .set ⟨7⟩ (.pathMode .alongVector), .step Poll.none 0, .connectNamed ⟨5⟩ "delta" ⟨7⟩ "forward",
    .step Poll.none 0] (empty "steered")

/-- The display knows its producer and the path its direction, and edges feed them. -/
theorem remembers_only_attached_of_steered :
    steered.Authored ∧
      (∃ n d, steered.node? ⟨2⟩ = some n ∧ n.behavior = .display d ∧ d.producer.isSome = true) ∧
      steered.HasEdge ⟨2⟩ relayInput ∧
      (∃ n m, steered.node? ⟨7⟩ = some n ∧ n.behavior = .path m ∧
        m.forward ≠ Mover.defaultForward) ∧
      steered.HasEdge ⟨7⟩ PathMode.directionInput := by
  have hauthored : steered.Authored := authored_run (by decide) (.empty "steered")
  have hdisplay : steered.node? ⟨2⟩ = some _ := rfl
  have hpath : steered.node? ⟨7⟩ = some _ := rfl
  refine ⟨hauthored, ⟨_, _, hdisplay, rfl, rfl⟩, ?_, ⟨_, _, hpath, rfl, ?_⟩, ?_⟩
  · exact ((remembers_only_attached hauthored hdisplay).1 _ rfl).mp rfl
  · decide +kernel
  · exact ((remembers_only_attached hauthored hpath).2 _ rfl).2 (by decide +kernel)

end Patchbay.Graph
