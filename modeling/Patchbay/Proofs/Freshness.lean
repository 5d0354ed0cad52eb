import Patchbay.Formula.Basic
import Patchbay.Proofs.Shape
import Patchbay.Proofs.Splines
import Patchbay.Proofs.Supplies
/-!
No update is lost.

A display, a delay and a path on a spline keep a copy of what they read, and
take a new one only when the cell they read is flagged or their own state
asks for it.  A producer clears its flag at its own next turn.  The
invariant behind this (`Graph.Synced`) is that a copy is good or asked for,
or else the cell is flagged and the reader has its turn before the producer
has.  In a turn the reader sees one or the other, so afterwards its copy is
good; and a producer whose turn comes can only have readers with good copies,
who are then all ahead of it again.
-/

namespace Patchbay

/-- The same payload, as numbers or bit for bit. -/
def Value.Agrees (out v : Value) : Prop := out.same v = true ∨ out = v

theorem Cell.agrees_publish (c : Cell) (v : Value) : (c.publish v).value.Agrees v := by
  unfold Cell.publish
  by_cases h : c.value.same v = true
  · rw [if_pos h]
    exact Or.inl h
  · rw [if_neg h]
    exact Or.inr rfl

theorem Directory.firstValue?_publish {d : Directory} {out : Cell} (h : d.cell? 0 = some out)
    (v : Value) : ∃ o, (d.post (.publish 0 v)).firstValue? = some o ∧ o.Agrees v := by
  refine ⟨_, ?_, Cell.agrees_publish out v⟩
  have hpost := Directory.cell?_modifyCell d 0 0 (·.publish v)
  rw [if_pos rfl, h] at hpost
  exact congrArg (Option.map Cell.value) hpost

/-- The input of which a node of the type keeps a copy. -/
def NodeType.watched? : NodeType → Option String
  | .display => some relayInput
  | .feedback => some relayInput
  | .path => some PathMode.pointsInput
  | _ => none

namespace Behavior

variable [Formula.Engine]

/-- The mark of a new connection, for the types that have one. -/
def mark? : Behavior → Option Bool
  | display s => some s.refresh
  | feedback s => some s.refresh
  | _ => none

/-- Whether the copy of the value `v` is good, or will be made anew whatever its cell's flag says;
`out` is what the node has on its first output. -/
def UpToDate (out : Option Value) (v : Value) : Behavior → Prop
  | display s => s.refresh = true ∨ ∃ o, out = some o ∧ o.Agrees v
  | feedback s => s.refresh = true ∨ ∃ o, out = some o ∧ o.Agrees v
  | path s => s.mode = .closedSpline →
      s.spline = none ∨ s.spline = v.vector3List?.bind ClosedSpline.through
  | _ => True

variable {out : Option Value} {v : Value}

theorem upToDate_of_mark? {b : Behavior} {refresh : Bool} (h : b.mark? = some refresh) :
    b.UpToDate out v ↔ refresh = true ∨ ∃ o, out = some o ∧ o.Agrees v := by
  cases b with
  | display s => cases h; exact Iff.rfl
  | feedback s => cases h; exact Iff.rfl
  | _ => exact nomatch h

theorem watched?_of_mark? {b : Behavior} {refresh : Bool} (h : b.mark? = some refresh) :
    b.type.watched? = some relayInput := by
  cases b with
  | display s | feedback s => rfl
  | _ => exact nomatch h

/-- What a display or a delay reads is flagged, or will be copied, or is on its output already. -/
def Copied (out : Option Value) (r : Readings) (b : Behavior) : Prop :=
  ∀ refresh, b.mark? = some refresh → ∀ c, r.cell relayInput = some c →
    c.dirty = true ∨ refresh = true ∨ ∃ o, out = some o ∧ o.Agrees c.value

theorem UpToDate.disconnected {b : Behavior} (h : b.UpToDate out v) (input : String) :
    (b.disconnected input).UpToDate out v := by
  cases b with
  | path s =>
      show (s.disconnected input).mode = _ → (s.disconnected input).spline = _ ∨ _
      unfold Mover.disconnected
      split
      · exact fun _ => Or.inl rfl
      · split
        · exact h
        · exact h
  | _ => exact h

theorem UpToDate.disconnectedAll {b : Behavior} (h : b.UpToDate out v) (lost : List Dropped) :
    (b.disconnectedAll lost).UpToDate out v := by
  unfold Behavior.disconnectedAll
  induction lost generalizing b with
  | nil => exact h
  | cons d lost ih => exact ih (h.disconnected d.name)

theorem UpToDate.connected {b : Behavior} (h : b.UpToDate out v) (input : String)
    (p : ProducerInfo) : (b.connected input p).UpToDate out v := by
  cases b with
  | display s => exact Or.inl rfl
  | feedback s => exact Or.inl rfl
  | path s =>
      show (s.connected input).mode = _ → (s.connected input).spline = _ ∨ _
      unfold Mover.connected
      split
      · exact fun _ => Or.inl rfl
      · exact h
  | _ => exact h

/-- A new connection of the watched input asks for a new copy. -/
theorem upToDate_connected {b : Behavior} {input : String} (h : b.type.watched? = some input)
    (p : ProducerInfo) : (b.connected input p).UpToDate out v := by
  cases b with
  | display s => exact Or.inl rfl
  | feedback s => exact Or.inl rfl
  | path s =>
      cases h
      exact fun _ => Or.inl rfl
  | _ => exact nomatch h

theorem UpToDate.set {b : Behavior} (h : b.UpToDate out v) (s : Setting) :
    (s.onBehavior b).UpToDate out v := by
  cases b with
  | display d => cases s <;> exact h
  | feedback d => cases s <;> exact h
  | path m => cases s <;> exact h
  | _ => cases s <;> trivial

end Behavior

namespace Node

variable [Formula.Engine]

/-- Whether a node's copy of a value is good or asked for; an empty value is not copied. -/
def UpToDate (n : Node) (v : Value) : Prop :=
  v.isEmpty = true ∨ n.behavior.UpToDate n.ports.firstValue? v

/-- Where the watched input of a node reads from. -/
def watchedSource? (n : Node) : Option Address :=
  n.type.watched?.bind fun name => (n.ports.inputIndex? name).bind n.ports.source?

theorem watchedSource?_eq_some {n : Node} {a : Address} :
    n.watchedSource? = some a ↔ ∃ name i, n.type.watched? = some name ∧
      n.ports.inputIndex? name = some i ∧ n.ports.source? i = some a := by
  simp [watchedSource?, Option.bind_eq_some_iff]

/-- The second node is the first one without some of its sources, and has been told. -/
structure Loses (n m : Node) : Prop where
  type : m.type = n.type
  names : m.ports.inputNames = n.ports.inputNames
  outputs : m.ports.outputs = n.ports.outputs
  source : ∀ i a, m.ports.source? i = some a → n.ports.source? i = some a
  upToDate : ∀ out v, n.behavior.UpToDate out v → m.behavior.UpToDate out v

theorem Loses.refl (n : Node) : n.Loses n :=
  ⟨rfl, rfl, rfl, fun _ _ h => h, fun _ _ h => h⟩

theorem Loses.trans {n m k : Node} (h : n.Loses m) (h' : m.Loses k) : n.Loses k where
  type := h'.type.trans h.type
  names := h'.names.trans h.names
  outputs := h'.outputs.trans h.outputs
  source i a ha := h.source i a (h'.source i a ha)
  upToDate out v hv := h'.upToDate out v (h.upToDate out v hv)

theorem loses_detach (n : Node) (i : Nat) : n.Loses (n.detach i) where
  type := n.type_detach i
  names := n.inputNames_detach i
  outputs := n.outputs_detach i
  source j a ha := by
    rw [n.source?_detach] at ha
    split at ha
    · exact nomatch ha
    · exact ha
  upToDate out v hv := by
    unfold Node.detach
    cases n.ports.inputs[i]? with
    | none => exact hv
    | some p => exact hv.disconnected p.name

theorem Loses.watchedSource? {n m : Node} (h : n.Loses m) {a : Address}
    (ha : m.watchedSource? = some a) : n.watchedSource? = some a := by
  obtain ⟨name, i, hname, hi, hs⟩ := watchedSource?_eq_some.mp ha
  rw [h.type] at hname
  rw [Directory.inputIndex?_congr h.names] at hi
  exact watchedSource?_eq_some.mpr ⟨name, i, hname, hi, h.source i a hs⟩

theorem firstValue?_congr {n m : Node} (h : m.ports.outputs = n.ports.outputs) :
    m.ports.firstValue? = n.ports.firstValue? := by
  rw [Directory.firstValue?, Directory.firstValue?, Directory.cell?_congr h]

theorem Loses.keeps {n m : Node} (h : n.Loses m) {v : Value} (hv : n.UpToDate v) :
    m.UpToDate v := by
  rcases hv with hv | hv
  · exact Or.inl hv
  · right
    rw [firstValue?_congr h.outputs]
    exact h.upToDate _ v hv

/-- A sound node has a cell for each output of its type. -/
theorem Sound.exists_cell {n : Node} (h : n.Sound) {o : Nat} (ho : o < n.type.outputNames.length) :
    ∃ c, n.ports.cell? o = some c := by
  have hlength := congrArg List.length h.outputs
  simp only [Directory.outputNames, List.length_map] at hlength
  have hlt : o < n.ports.outputs.length := by omega
  exact ⟨_, by rw [Directory.cell?, List.getElem?_eq_getElem hlt]; rfl⟩

/-! ## The turn of a node that keeps a copy -/

section Turns
variable {now : Moment} {supply : Supply} {n : Node}

/-- A display or a delay keeps its inputs. -/
theorem inputs_of_mark? {refresh : Bool} (h : n.behavior.mark? = some refresh) :
    (n.plan now).inputs = none := by
  unfold plan
  cases hb : n.behavior with
  | display s | feedback s => rfl
  | _ => rw [hb] at h; exact nomatch h

/-- The posts of a display or a delay. -/
theorem posts_of_mark? {refresh : Bool} (h : n.behavior.mark? = some refresh) :
    (n.outcome now supply).2 = (relayed relayInput refresh (n.readings now supply)).2 := by
  unfold outcome plan
  cases hb : n.behavior with
  | display s => rw [hb] at h; cases h; rfl
  | feedback s => rw [hb] at h; cases h; rfl
  | _ => rw [hb] at h; exact nomatch h

/-- A sound display or delay has an output. -/
theorem Sound.exists_cell_of_mark? (h : n.Sound) {refresh : Bool}
    (hmark : n.behavior.mark? = some refresh) : ∃ out, n.ports.cell? 0 = some out := by
  refine h.exists_cell ?_
  unfold Node.type
  cases hb : n.behavior with
  | display s | feedback s => exact Nat.one_pos
  | _ => rw [hb] at hmark; exact nomatch hmark

/-- A display or a delay that reads a value has it on its output after its turn, unless its copy
was neither good nor asked for and the value not flagged. -/
theorem firstValue?_of_mark? (hn : n.ports.Indexed) (hs : n.Sound) {refresh : Bool}
    (hmark : n.behavior.mark? = some refresh) {c : Cell}
    (hc : (n.readings now supply).cell relayInput = some c)
    (hcopy : c.dirty = true ∨ refresh = true ∨
      ∃ o, n.ports.firstValue? = some o ∧ o.Agrees c.value) :
    ∃ o, (n.takeTurn now supply).1.ports.firstValue? = some o ∧ o.Agrees c.value := by
  obtain ⟨out, hout⟩ := hs.exists_cell_of_mark? hmark
  have hheld : (n.heldTurn now supply).ports.cell? 0 = some out.clearDirty := by
    rw [cell?_heldTurn now supply hn, hout]
    rfl
  rw [takeTurn_node, posts_of_mark? hmark]
  unfold relayed
  rw [hc]
  by_cases hd : c.dirty = true
  · simp only [hd, if_true]
    exact Directory.firstValue?_publish hheld c.value
  · cases refresh with
    | true =>
        simp only [hd, Bool.false_eq_true, if_false, if_true]
        exact Directory.firstValue?_publish hheld c.value
    | false =>
        have hgood : ∃ o, n.ports.firstValue? = some o ∧ o.Agrees c.value := by simpa [hd] using hcopy
        obtain ⟨o, ho, hagrees⟩ := hgood
        refine ⟨o, ?_, hagrees⟩
        simp only [hd, Bool.false_eq_true, if_false, List.foldl_nil]
        rw [← ho, Directory.firstValue?, Directory.firstValue?, hheld, hout]
        rfl

/-- A value that is read is flagged or has an up-to-date copy: what that says of a display or a
delay. -/
theorem copied_of_upToDate {refresh : Bool} (hmark : n.behavior.mark? = some refresh) {c : Cell}
    (hvalue : c.value.isEmpty = false) (hcopy : n.UpToDate c.value ∨ c.dirty = true) :
    c.dirty = true ∨ refresh = true ∨ ∃ o, n.ports.firstValue? = some o ∧ o.Agrees c.value := by
  rcases hcopy with (hempty | hgood) | hdirty
  · rw [hvalue] at hempty
    exact nomatch hempty
  · exact Or.inr ((Behavior.upToDate_of_mark? hmark).mp hgood)
  · exact Or.inl hdirty

end Turns

end Node

namespace Mover

/-- The curve through the points in a cell, if there are any. -/
def curveOf (c : Cell) : Option ClosedSpline := c.value.vector3List?.bind ClosedSpline.through

/-- After a look at the points the spline is the curve through them. -/
theorem spline_refitted {m : Mover} {c : Cell}
    (h : c.dirty = true ∨ m.spline = none ∨ m.spline = curveOf c) :
    (m.refitted c).spline = curveOf c := by
  unfold refitted
  by_cases hfit : (m.spline.isNone || c.dirty) = true
  · rw [if_pos hfit]
    rfl
  · rw [if_neg hfit]
    simp only [Bool.or_eq_true, Option.isNone_iff_eq_none, not_or] at hfit
    rcases h with h | h | h
    · exact absurd h hfit.2
    · exact absurd h hfit.1
    · exact h

theorem mode_refitted (m : Mover) (c : Cell) : (m.refitted c).mode = m.mode := by
  unfold refitted
  split <;> rfl

theorem mode_connected (m : Mover) (input : String) : (m.connected input).mode = m.mode := by
  unfold connected
  split
  · rfl
  · rfl

theorem mode_disconnected (m : Mover) (input : String) :
    (m.disconnected input).mode = m.mode := by
  unfold disconnected
  split
  · rfl
  · split
    · rfl
    · rfl

theorem mode_finish (m : Mover) (r : Readings) : (m.finish r).1.mode = m.mode := by
  unfold finish
  cases hmode : m.mode with
  | closedSpline =>
      simp only [finishSpline]
      split
      · exact hmode
      · split
        · exact (m.mode_refitted _).trans hmode
        · exact (m.mode_refitted _).trans hmode
  | alongVector =>
      simp only [placed, turned]
      split
      · split
        · exact hmode
        · exact hmode
      · exact hmode
  | _ => exact hmode

/-- The parameter that a path reads. -/
def parameter (r : Readings) : Single := (r.float? PathMode.parameterInput).getD .zero

section Spline
variable {m : Mover} {r : Readings} {c : Cell}

/-- In its turn a path on a spline takes the curve through the points it reads. -/
theorem spline_finish (hmode : m.mode = .closedSpline)
    (hc : r.cell PathMode.pointsInput = some c)
    (h : c.dirty = true ∨ m.spline = none ∨ m.spline = curveOf c) :
    (m.finish r).1.spline = curveOf c := by
  have hfit := spline_refitted h
  simp only [finish, hmode, finishSpline, hc]
  split
  · exact hfit
  · exact hfit

theorem posts_finish (hmode : m.mode = .closedSpline)
    (hc : r.cell PathMode.pointsInput = some c)
    (h : c.dirty = true ∨ m.spline = none ∨ m.spline = curveOf c) {curve : ClosedSpline}
    (hcurve : curveOf c = some curve) :
    (m.finish r).2 = [.publish 0 (.vector3 (curve.position (parameter r)))] := by
  have hfit := (spline_refitted h).trans hcurve
  simp only [finish, hmode, finishSpline, hc, hfit]
  rfl

end Spline

/-- A turn replaces the inputs exactly when the mode changes; what belonged to another mode is
dropped then. -/
theorem switched_cases (m : Mover) :
    (m.plan.inputs = none ∧ m.switched = { m with pendingMode := none }) ∨
      (m.plan.inputs ≠ none ∧ m.switched.spline = none ∧ m.switched.forward = defaultForward) := by
  unfold plan switched
  by_cases hmode : m.currentMode = m.mode
  · simp [hmode]
  · simp [hmode]

/-- When the inputs stay, so do the mode and the spline. -/
theorem switched_of_inputs {m : Mover} (h : m.plan.inputs = none) :
    m.switched.mode = m.mode ∧ m.switched.spline = m.spline := by
  rcases m.switched_cases with ⟨-, hswitched⟩ | ⟨hinputs, -⟩
  · rw [hswitched]
    exact ⟨rfl, rfl⟩
  · exact absurd h hinputs

/-- When the inputs are replaced, the spline is dropped. -/
theorem spline_switched {m : Mover} (h : m.plan.inputs ≠ none) : m.switched.spline = none := by
  rcases m.switched_cases with ⟨hinputs, -⟩ | ⟨-, hspline, -⟩
  · exact absurd hinputs h
  · exact hspline

/-- Whether the inputs stay or not, a spline that was good is made anew or still good. -/
theorem refit_of_copy {m : Mover} {c : Cell} (hmode : m.switched.mode = .closedSpline)
    (hcopy : m.plan.inputs = none →
      (m.mode = .closedSpline → m.spline = none ∨ m.spline = curveOf c) ∨ c.dirty = true) :
    c.dirty = true ∨ m.switched.spline = none ∨ m.switched.spline = curveOf c := by
  by_cases hinputs : m.plan.inputs = none
  · obtain ⟨hsame, hspline⟩ := switched_of_inputs hinputs
    rcases hcopy hinputs with hgood | hdirty
    · rw [hspline]
      exact Or.inr (hgood (hsame.symm.trans hmode))
    · exact Or.inl hdirty
  · exact Or.inr (Or.inl (spline_switched hinputs))

end Mover

variable [Formula.Engine]

namespace Node

theorem Behavior.upToDate_of_agrees {b : Behavior} (hb : b.type ≠ .path) {out : Option Value}
    {v : Value} (h : ∃ o, out = some o ∧ o.Agrees v) : b.UpToDate out v := by
  cases b with
  | display s => exact Or.inr h
  | feedback s => exact Or.inr h
  | path s => exact absurd rfl hb
  | _ => trivial

section Turns
variable {now : Moment} {supply : Supply} {n : Node}

theorem outcome_of_path {m : Mover} (hb : n.behavior = .path m) :
    n.outcome now supply =
      (.path (m.switched.finish (n.readings now supply)).1,
        (m.switched.finish (n.readings now supply)).2) := by
  unfold outcome plan
  rw [hb]
  rfl

theorem inputs_of_path {m : Mover} (hb : n.behavior = .path m) :
    (n.plan now).inputs = m.plan.inputs := by
  unfold plan
  rw [hb]
  rfl

/-- What is known of the copy of a path, in terms of its spline. -/
theorem copy_of_path {m : Mover} (hb : n.behavior = .path m) {c : Cell}
    (hvalue : c.value.isEmpty = false)
    (hcopy : (n.plan now).inputs = none → n.UpToDate c.value ∨ c.dirty = true) :
    m.plan.inputs = none →
      (m.mode = .closedSpline → m.spline = none ∨ m.spline = Mover.curveOf c) ∨
        c.dirty = true := by
  intro hinputs
  rcases hcopy ((inputs_of_path hb).trans hinputs) with (hempty | hgood) | hdirty
  · rw [hvalue] at hempty
    exact nomatch hempty
  · rw [hb] at hgood
    exact Or.inl hgood
  · exact Or.inr hdirty

/-- A node that reads a value on the watched input has a good copy after its turn.  Where its
inputs are not replaced, the copy must have been good or asked for, or the value flagged. -/
theorem upToDate_takeTurn (hn : n.ports.Indexed) (hs : n.Sound) {name : String}
    (hname : n.type.watched? = some name) {c : Cell}
    (hc : (n.readings now supply).cell name = some c) (hvalue : c.value.isEmpty = false)
    (hcopy : (n.plan now).inputs = none → n.UpToDate c.value ∨ c.dirty = true) :
    (n.takeTurn now supply).1.UpToDate c.value := by
  -- A relay: the value arrives on the output.
  have hrelay : ∀ refresh, n.behavior.mark? = some refresh → name = relayInput →
      n.type ≠ .path → (n.takeTurn now supply).1.UpToDate c.value := by
    rintro refresh hmark rfl hpath
    refine Or.inr (Behavior.upToDate_of_agrees ?_ ?_)
    · exact fun h => hpath ((takeTurn_type now supply n).symm.trans h)
    · exact firstValue?_of_mark? hn hs hmark hc
        (copied_of_upToDate hmark hvalue (hcopy (inputs_of_mark? hmark)))
  unfold Node.type at hname hrelay
  cases hb : n.behavior with
  | display s =>
      rw [hb] at hname hrelay
      cases hname
      exact hrelay s.refresh rfl rfl (by simp [Behavior.type])
  | feedback s =>
      rw [hb] at hname hrelay
      cases hname
      exact hrelay s.refresh rfl rfl (by simp [Behavior.type])
  | path m =>
      rw [hb] at hname
      cases hname
      rw [takeTurn_node]
      refine Or.inr (Behavior.UpToDate.disconnectedAll ?_ _)
      show Behavior.UpToDate _ _ (n.outcome now supply).1
      rw [outcome_of_path hb]
      intro hmode
      rw [Mover.mode_finish] at hmode
      have hrefit := Mover.refit_of_copy hmode (copy_of_path hb hvalue hcopy)
      exact Or.inr (Mover.spline_finish hmode hc hrefit)
  | _ =>
      rw [hb] at hname
      exact nomatch hname

end Turns

end Node

namespace Graph

/-- Each copy of a value is good or asked for, or else the value is flagged and the node that
keeps the copy has its next turn before the value's producer. -/
def Synced (turns : List NodeId) (g : Graph) : Prop :=
  ∀ d n a c, g.node? d = some n → n.watchedSource? = some a → g.cellOf? a = some c →
    n.UpToDate c.value ∨ c.dirty = true ∧ [d, a.producer].Sublist turns

theorem source?_of_watchedSource? {g : Graph} {d : NodeId} {n : Node} {a : Address}
    (hn : g.node? d = some n) (ha : n.watchedSource? = some a) : ∃ i, g.source? d i = some a := by
  obtain ⟨_, i, _, _, hs⟩ := Node.watchedSource?_eq_some.mp ha
  exact ⟨i, source?_eq_some.mpr ⟨n, hn, hs⟩⟩

/-- What `Synced` needs of an edit: each node was there before with as good a copy of the same
source, and the turns have kept their order. -/
theorem Synced.of_nodes {turns turns' : List NodeId} {g g' : Graph} (h : Synced turns g)
    (hnodes : ∀ d m a c, g'.node? d = some m → m.watchedSource? = some a → g'.cellOf? a = some c →
      m.UpToDate c.value ∨ ∃ n, g.node? d = some n ∧ n.watchedSource? = some a ∧
        g.cellOf? a = some c ∧ (n.UpToDate c.value → m.UpToDate c.value) ∧
        ([d, a.producer].Sublist turns → [d, a.producer].Sublist turns')) :
    Synced turns' g' := by
  intro d m a c hm ha hc
  rcases hnodes d m a c hm ha hc with hgood | ⟨n, hn, hna, hnc, hkeep, hturns⟩
  · exact Or.inl hgood
  · rcases h d n a c hn hna hnc with hgood | ⟨hdirty, horder⟩
    · exact Or.inl (hkeep hgood)
    · exact Or.inr ⟨hdirty, hturns horder⟩

/-- A change of one node after which it only has lost sources. -/
theorem Synced.loses {turns : List NodeId} {g g' : Graph} {id : NodeId} {f : Node → Node}
    (h : Synced turns g)
    (hnode : ∀ x, g'.node? x = if x = id then (g.node? x).map f else g.node? x)
    (hf : ∀ n : Node, n.Loses (f n)) : Synced turns g' := by
  have hback : ∀ x m, g'.node? x = some m → ∃ n, g.node? x = some n ∧ n.Loses m := by
    intro x m hm
    rw [hnode] at hm
    split at hm
    · obtain ⟨n, hn, rfl⟩ := Option.map_eq_some_iff.mp hm
      exact ⟨n, hn, hf n⟩
    · exact ⟨m, hm, Node.Loses.refl m⟩
  refine h.of_nodes fun d m a c hm ha hc => Or.inr ?_
  obtain ⟨n, hn, hloses⟩ := hback d m hm
  obtain ⟨p', hp', hc'⟩ := cellOf?_eq_some.mp hc
  obtain ⟨p, hp, hlosesp⟩ := hback _ p' hp'
  refine ⟨n, hn, hloses.watchedSource? ha, ?_, hloses.keeps, fun horder => horder⟩
  rw [Directory.cell?_congr hlosesp.outputs] at hc'
  exact cellOf?_eq_some.mpr ⟨p, hp, hc'⟩

/-- A node of a graph from which another one has been removed. -/
theorem loses_of_removeNode {g : Graph} {id x : NodeId} {m : Node}
    (hm : (g.removeNode id).node? x = some m) : ∃ n, g.node? x = some n ∧ n.Loses m :=
  related_removeNode Node.Loses.refl Node.Loses.trans Node.loses_detach hm

/-- The nodes that are left keep their order. -/
theorem sublist_removeNode {g : Graph} {id d p : NodeId} (hd : d ∈ (g.removeNode id).ids)
    (hp : p ∈ (g.removeNode id).ids) (h : [d, p].Sublist g.ids) :
    [d, p].Sublist (g.removeNode id).ids := by
  rw [ids_removeNode] at hd hp ⊢
  have hfilter := h.filter (· != id)
  rwa [List.filter_eq_self.mpr] at hfilter
  intro x hx
  rcases List.mem_cons.mp hx with rfl | hx
  · exact (List.mem_filter.mp hd).2
  · rw [List.mem_singleton.mp hx]
    exact (List.mem_filter.mp hp).2

theorem Synced.remove {g : Graph} (h : Synced g.ids g) (id : NodeId) :
    Synced (g.removeNode id).ids (g.removeNode id) := by
  refine h.of_nodes fun d m a c hm ha hc => Or.inr ?_
  obtain ⟨n, hn, hloses⟩ := loses_of_removeNode hm
  obtain ⟨p', hp', hc'⟩ := cellOf?_eq_some.mp hc
  obtain ⟨p, hp, hlosesp⟩ := loses_of_removeNode hp'
  rw [Directory.cell?_congr hlosesp.outputs] at hc'
  exact ⟨n, hn, hloses.watchedSource? ha, cellOf?_eq_some.mpr ⟨p, hp, hc'⟩, hloses.keeps,
    sublist_removeNode (mem_ids_of_node? hm) (mem_ids_of_node? hp')⟩

theorem Synced.insert {g : Graph} {n : Node} (h : Synced g.ids g) (hw : g.Wired)
    (hid : n.id ∉ g.ids) (hn : n.ports.Loose) : Synced (g.inserted n).ids (g.inserted n) := by
  refine h.of_nodes fun d m a c hm ha hc => Or.inr ?_
  rw [node?_inserted hid] at hm
  split at hm
  · cases hm
    obtain ⟨_, i, _, _, hs⟩ := Node.watchedSource?_eq_some.mp ha
    rw [hn i] at hs
    exact nomatch hs
  · obtain ⟨i, hs⟩ := source?_of_watchedSource? hm ha
    have hproducer := (hw.producer d i a hs).mem_ids
    have hother : a.producer ≠ n.id := fun heq => hid (heq ▸ hproducer)
    rw [cellOf?, node?_inserted hid, if_neg hother] at hc
    exact ⟨m, hm, ha, hc, fun hgood => hgood, fun horder =>
      horder.trans ((sublist_insertByPriority n g.nodes).map Node.id)⟩

section Attach
variable {g : Graph} {e : Edge} {source target : Node} {o : OutputPort} {i : InputPort}

/-- A new edge leaves every cell as it is. -/
theorem cellOf?_attached (a : Address) : (g.attached e source o i).cellOf? a = g.cellOf? a :=
  cellOf?_change node?_attached outputs_attachedNode a

theorem keeps_attachedNode {n : Node} {v : Value} (h : n.UpToDate v) :
    (attachedNode e source o i n).UpToDate v := by
  rcases h with hempty | hgood
  · exact Or.inl hempty
  · right
    rw [Node.firstValue?_congr (outputs_attachedNode n), attachedNode_eq]
    refine Behavior.UpToDate.connected ?_ _ _
    split
    · exact hgood.disconnected _
    · exact hgood

/-- A new edge on the watched input asks for a new copy. -/
theorem upToDate_attachedNode {n : Node} (h : n.type.watched? = some i.name) (v : Value) :
    (attachedNode e source o i n).UpToDate v := by
  right
  rw [attachedNode_eq]
  refine Behavior.upToDate_connected ?_ _
  split
  · rw [Behavior.type_disconnected]
    exact h
  · exact h

/-- Connecting the watched input asks for a new copy; connecting another one leaves the copy as
it is. -/
theorem Synced.attach (h : Synced g.ids g) (ha : Attachable g e source target o i) :
    Synced (g.attached e source o i).ids (g.attached e source o i) := by
  rw [ids_attached]
  refine h.of_nodes fun d m a c hm hwatched hc => ?_
  rw [cellOf?_attached] at hc
  rw [node?_attached] at hm
  by_cases hd : d = e.consumer
  · subst hd
    rw [if_pos rfl, ha.hasTarget] at hm
    cases hm
    obtain ⟨name, j, hname, hj, hs⟩ := Node.watchedSource?_eq_some.mp hwatched
    rw [Directory.inputIndex?_congr (inputNames_attachedNode e source o i target)] at hj
    rw [ports_attachedNode, Directory.source?_attach ha.hasInput] at hs
    rw [type_attachedNode] at hname
    by_cases hij : e.address.input.toNat = j
    · -- The new edge feeds the watched input.
      subst hij
      obtain ⟨p, hp, rfl⟩ := Directory.name_of_inputIndex? hj
      cases ha.hasInput.symm.trans hp
      exact Or.inl (upToDate_attachedNode hname c.value)
    · rw [if_neg hij] at hs
      exact Or.inr ⟨target, ha.hasTarget, Node.watchedSource?_eq_some.mpr ⟨name, j, hname, hj, hs⟩,
        hc, keeps_attachedNode, fun horder => horder⟩
  · rw [if_neg hd] at hm
    exact Or.inr ⟨m, hm, hwatched, hc, fun hgood => hgood, fun horder => horder⟩

end Attach

theorem Synced.set {turns : List NodeId} {g : Graph} (h : Synced turns g) (id : NodeId)
    (s : Setting) : Synced turns (g.modifyNode id s.onNode) := by
  refine h.loses (node?_set g id s) fun n => ?_
  refine ⟨s.type_onNode n, by rw [s.ports_onNode], by rw [s.ports_onNode], ?_, ?_⟩
  · intro i a ha
    rw [s.ports_onNode] at ha
    exact ha
  · intro out v hv
    rcases s.onNode_cases n with ⟨_, _, hs⟩ | ⟨_, hs⟩ | hs
    · rw [hs]; exact hv
    · rw [hs]; exact hv
    · rw [hs]; exact hv.set s

/-! ## Turns -/

omit [Formula.Engine] in
theorem sublist_rotate {d p id : NodeId} {rest : List NodeId} (hd : d ≠ id)
    (h : [d, p].Sublist (id :: rest)) : [d, p].Sublist (rest ++ [id]) := by
  rcases List.sublist_cons_iff.mp h with h | ⟨_, heq, _⟩
  · exact h.trans (List.sublist_append_left rest [id])
  · exact absurd (List.head_eq_of_cons_eq heq) hd

omit [Formula.Engine] in
/-- No node has its turn before the one whose turn comes. -/
theorem not_sublist_head {d id : NodeId} {rest : List NodeId} (h : (id :: rest).Nodup)
    (hd : d ≠ id) : ¬[d, id].Sublist (id :: rest) := by
  intro horder
  have hbehind : id ∈ rest := by
    rcases List.sublist_cons_iff.mp horder with horder | ⟨_, heq, _⟩
    · exact horder.subset (by simp)
    · exact absurd (List.head_eq_of_cons_eq heq) hd
  exact (List.nodup_cons.mp h).1 hbehind

/-- A node whose turn comes has a good copy of what it will read, or reads a flagged value,
unless its inputs are replaced. -/
theorem Synced.copy {g : Graph} {id : NodeId} {rest : List NodeId} (h : Synced (id :: rest) g)
    (hw : g.Wired) {n : Node} (hn : g.node? id = some n) (now : Moment) {name : String}
    (hname : n.type.watched? = some name) {c : Cell}
    (hc : (runNode now g id).reading? (n.takeTurn now (supplyOf g.nodes n)).1 name = some c) :
    (n.plan now).inputs = none → n.UpToDate c.value ∨ c.dirty = true := by
  intro hinputs
  obtain ⟨i, a, hi, hs, hcell, -⟩ := reading?_eq_some.mp hc
  have hnames := Node.takeTurn_inputNames now (supplyOf g.nodes n) n
  rw [hinputs, Option.getD_none] at hnames
  rw [Directory.inputIndex?_congr hnames] at hi
  have hbefore : n.ports.source? i = some a :=
    ((Node.takeTurn_source_iff now _ (hw.ports_indexed hn) i a).mp hs).1
  have hapart : a.producer ≠ id := hw.apart id i a (source?_eq_some.mpr ⟨n, hn, hbefore⟩)
  rw [cellOf?_runNode hn now hapart] at hcell
  have hwatched : n.watchedSource? = some a :=
    Node.watchedSource?_eq_some.mpr ⟨name, i, hname, hi, hbefore⟩
  rcases h id n a c hn hwatched hcell with hgood | ⟨hdirty, _⟩
  · exact Or.inl hgood
  · exact Or.inr hdirty

/-- A node that has had its turn has a good copy of what its watched input reads from. -/
theorem Synced.upToDate_takeTurn {g : Graph} {id : NodeId} {rest : List NodeId}
    (h : Synced (id :: rest) g) (hw : g.Wired) (hshape : Shaped (id :: rest) g) {n : Node}
    (hn : g.node? id = some n) (now : Moment) {a : Address} {c : Cell}
    (hwatched : (n.takeTurn now (supplyOf g.nodes n)).1.watchedSource? = some a)
    (hc : (runNode now g id).cellOf? a = some c) :
    (n.takeTurn now (supplyOf g.nodes n)).1.UpToDate c.value := by
  by_cases hempty : c.value.isEmpty = true
  · exact Or.inl hempty
  have hvalue : c.value.isEmpty = false := by simpa using hempty
  obtain ⟨name, i, hname, hi, hs⟩ := Node.watchedSource?_eq_some.mp hwatched
  rw [Node.takeTurn_type] at hname
  have hread := reading?_eq_some.mpr ⟨i, a, hi, hs, hc, hvalue⟩
  refine Node.upToDate_takeTurn (hw.ports_indexed hn) (hshape.sound n (mem_of_nodeIn? hn)) hname ?_
    hvalue (h.copy hw hn now hname hread)
  rw [hw.readings_cell hn]
  exact hread

/-- The cells of a node after its turn. -/
theorem Wired.follows_runNode {g : Graph} (h : g.Wired) {id : NodeId} {n : Node}
    (hn : g.node? id = some n) (now : Moment) {a : Address} (hp : a.producer = id) {c : Cell}
    (hc : (runNode now g id).cellOf? a = some c) : ∃ old, g.cellOf? a = some old ∧ old.Follows c := by
  rw [cellOf?, hp, node?_runNode hn, if_pos rfl] at hc
  obtain ⟨old, hold, hfollows⟩ := Node.cell?_takeTurn now _ (h.ports_indexed hn) hc
  exact ⟨old, cellOf?_eq_some.mpr ⟨n, hp ▸ hn, hold⟩, hfollows⟩

theorem Synced.turn {g : Graph} {id : NodeId} {rest : List NodeId} (h : Synced (id :: rest) g)
    (hw : g.Wired) (hshape : Shaped (id :: rest) g) (now : Moment) :
    Synced (rest ++ [id]) (runNode now g id) := by
  have hnodup : (id :: rest).Nodup := hshape.turns.nodup_iff.mpr hw.nodup
  obtain ⟨n, hn⟩ := hshape.exists_next
  intro d m a c hm hwatched hc
  rw [node?_runNode hn] at hm
  by_cases hd : d = id
  · -- The node that has just had its turn.
    subst hd
    rw [if_pos rfl] at hm
    cases hm
    exact Or.inl (h.upToDate_takeTurn hw hshape hn now hwatched hc)
  · rw [if_neg hd] at hm
    have hdmem : d ∈ rest := by
      have hmem := hshape.turns.mem_iff.mpr (mem_ids_of_node? hm)
      rcases List.mem_cons.mp hmem with heq | hmem
      · exact absurd heq hd
      · exact hmem
    by_cases hp : a.producer = id
    · -- Its reader has a good copy, or the cell has just been written.
      obtain ⟨old, hold, hfollows⟩ := hw.follows_runNode hn now hp hc
      rcases hfollows with hdirty | hsame
      · right
        rw [hp]
        exact ⟨hdirty, (List.singleton_sublist.mpr hdmem).append (List.Sublist.refl [id])⟩
      · left
        rw [hsame]
        rcases h d m a old hm hwatched hold with hgood | ⟨_, horder⟩
        · exact hgood
        · rw [hp] at horder
          exact absurd horder (not_sublist_head hnodup hd)
    · rw [cellOf?_runNode hn now hp] at hc
      rcases h d m a c hm hwatched hc with hgood | ⟨hdirty, horder⟩
      · exact Or.inl hgood
      · exact Or.inr ⟨hdirty, sublist_rotate hd horder⟩

/-- The graphs of which the copies are looked at. -/
def Standing (turns : List NodeId) (g : Graph) : Prop := g.Wired ∧ Shaped turns g

theorem standing_invariant : Invariant Always Standing := wired_invariant.and shaped_invariant

theorem synced_invariant : Invariant Standing Synced where
  blank name c := by
    intro d n a c' hn
    exact nomatch hn
  context _ _ h := h
  remove id _ h := h.remove id
  insert hq h hid hn := h.insert hq.1 hid hn.loose
  attach _ h ha := h.attach ha
  disconnect {g e g' consumer input} _ h hd := by
    obtain ⟨slot, rfl, _, _, rfl⟩ := disconnect_eq_some hd
    change Synced (g.detached consumer slot).ids (g.detached consumer slot)
    rw [ids_detached]
    exact h.loses (node?_detached g consumer slot) fun n => n.loses_detach _
  set {g} id s _ h := by
    rw [ids_set]
    exact h.set id s
  turn now hq h := h.turn hq.1 hq.2 now

/-- What holds of every reachable graph, and within a frame of every stage of it. -/
def Sustained (turns : List NodeId) (g : Graph) : Prop := Standing turns g ∧ Synced turns g

theorem sustained_invariant : Invariant Always Sustained :=
  standing_invariant.and synced_invariant

/-! ## Frames that are half done -/

/-- The graph in the middle of a frame, when the nodes of `done` have had their turns. -/
def inFrame (poll : Poll) (f : Clock → Clock) (done : List NodeId) (g : Graph) : Graph :=
  done.foldl (runNode ((g.withClock f).moment poll)) (g.withClock f)

theorem inFrame_ids (poll : Poll) (f : Clock → Clock) (g : Graph) :
    g.inFrame poll f g.ids = (g.withClock f).evaluate poll := rfl

theorem inFrame_append (poll : Poll) (f : Clock → Clock) (done : List NodeId) (id : NodeId)
    (g : Graph) :
    g.inFrame poll f (done ++ [id]) =
      runNode ((g.withClock f).moment poll) (g.inFrame poll f done) id := by
  rw [inFrame, List.foldl_append]
  rfl

/-- Turns of other nodes leave a node alone. -/
theorem node?_turns (now : Moment) {turns : List NodeId} {id : NodeId} (hid : id ∉ turns)
    (g : Graph) : (turns.foldl (runNode now) g).node? id = g.node? id := by
  induction turns generalizing g with
  | nil => rfl
  | cons x turns ih =>
      have hx : id ≠ x := fun heq => hid (heq ▸ List.mem_cons_self)
      have hrest : id ∉ turns := fun hmem => hid (List.mem_cons_of_mem x hmem)
      rw [List.foldl_cons, ih hrest]
      cases hn : g.node? x with
      | none => rw [runNode_of_none hn]
      | some n => rw [node?_runNode hn, if_neg hx]

/-- Until its turn in a frame a node is as it was before the frame. -/
theorem node?_inFrame {g : Graph} (poll : Poll) (f : Clock → Clock) {done : List NodeId}
    {x : NodeId} (hx : x ∉ done) : (g.inFrame poll f done).node? x = g.node? x :=
  node?_turns _ hx _

/-- After its turn in a frame a node is as it will be after the frame. -/
theorem node?_frame {g : Graph} (poll : Poll) (f : Clock → Clock) {done todo : List NodeId}
    (hids : g.ids = done ++ todo) {x : NodeId} (hx : x ∉ todo) :
    ((g.withClock f).evaluate poll).node? x = (g.inFrame poll f done).node? x := by
  have hsplit : (g.withClock f).evaluate poll =
      todo.foldl (runNode ((g.withClock f).moment poll)) (g.inFrame poll f done) := by
    rw [← inFrame_ids, hids, inFrame, inFrame, List.foldl_append]
  rw [hsplit]
  exact node?_turns _ hx _

section Frames
variable {g : Graph} {done rest : List NodeId} {id : NodeId} (hg : g.ids.Nodup)
  (hids : g.ids = done ++ id :: rest) (poll : Poll) (f : Clock → Clock)
include hg hids

theorem node?_before_turn : (g.inFrame poll f done).node? id = g.node? id := by
  rw [hids] at hg
  exact node?_inFrame poll f fun hmem =>
    (List.nodup_append.mp hg).2.2 id hmem id List.mem_cons_self rfl

theorem node?_after_turn :
    ((g.withClock f).evaluate poll).node? id = (g.inFrame poll f (done ++ [id])).node? id := by
  have hsplit : g.ids = (done ++ [id]) ++ rest := by
    rw [hids, List.append_assoc]
    rfl
  rw [hids] at hg
  exact node?_frame poll f hsplit (List.nodup_cons.mp (List.nodup_append.mp hg).2.1).1

end Frames

/-- An invariant holds before the turn of a node in a frame of a reachable graph. -/
theorem Invariant.inFrame {P : List NodeId → Graph → Prop} (hP : Invariant Always P) {g : Graph}
    (h : g.Reachable) (poll : Poll) (f : Clock → Clock) {done todo : List NodeId}
    (hids : g.ids = done ++ todo) : P (todo ++ done) (g.inFrame poll f done) := by
  have hstart : P g.ids (g.withClock f) := hP.context _ trivial (hP.of_reachable h)
  rw [hids] at hstart
  exact hP.turns _ hstart

theorem Reachable.sustained_inFrame {g : Graph} (h : g.Reachable) (poll : Poll)
    (f : Clock → Clock) {done todo : List NodeId} (hids : g.ids = done ++ todo) :
    Sustained (todo ++ done) (g.inFrame poll f done) :=
  sustained_invariant.inFrame h poll f hids

/-- The parameter that a path reads. -/
def parameterOf (g : Graph) (n : Node) : Single :=
  ((g.reading? n PathMode.parameterInput).bind fun c => c.value.float?).getD .zero

theorem Wired.parameter_eq {g : Graph} (h : g.Wired) {id : NodeId} {n : Node}
    (hn : g.node? id = some n) (now : Moment) :
    Mover.parameter (n.readings now (supplyOf g.nodes n)) =
      (runNode now g id).parameterOf (n.takeTurn now (supplyOf g.nodes n)).1 := by
  unfold Mover.parameter Readings.float? Readings.value? parameterOf
  rw [h.readings_cell hn, Option.bind_map]
  rfl

end Graph

/-- Told of lost sources, a path keeps its mode. -/
theorem Behavior.disconnectedAll_path (m : Mover) (lost : List Dropped) :
    ∃ m', (Behavior.path m).disconnectedAll lost = .path m' ∧ m'.mode = m.mode := by
  unfold Behavior.disconnectedAll
  induction lost generalizing m with
  | nil => exact ⟨m, rfl, rfl⟩
  | cons d lost ih =>
      obtain ⟨m', hm', hmode⟩ := ih (m.disconnected d.name)
      exact ⟨m', hm', hmode.trans (m.mode_disconnected d.name)⟩

namespace Graph

/-- Before its turn a display or a delay has a good copy of what it will read, or makes one. -/
theorem Sustained.copied {g : Graph} {id : NodeId} {rest : List NodeId}
    (h : Sustained (id :: rest) g) {n : Node} (hn : g.node? id = some n) (now : Moment) :
    n.behavior.Copied n.ports.firstValue? (n.readings now (supplyOf g.nodes n)) := by
  obtain ⟨⟨hw, -⟩, hsynced⟩ := h
  intro refresh hmark c hc
  rw [hw.readings_cell hn] at hc
  obtain ⟨-, -, -, -, -, hvalue⟩ := reading?_eq_some.mp hc
  exact Node.copied_of_upToDate hmark hvalue (hsynced.copy hw hn now
    (Behavior.watched?_of_mark? hmark) hc (Node.inputs_of_mark? hmark))

/-- After its turn a display or a delay has on its output what it reads then. -/
theorem Sustained.relay {g : Graph} {id : NodeId} {rest : List NodeId}
    (h : Sustained (id :: rest) g) {n : Node} (hn : g.node? id = some n) (now : Moment)
    (htype : n.type = .display ∨ n.type = .feedback) {c : Cell}
    (hc : (runNode now g id).reading? (n.takeTurn now (supplyOf g.nodes n)).1 relayInput =
      some c) :
    ∃ out, (n.takeTurn now (supplyOf g.nodes n)).1.ports.firstValue? = some out ∧
      out.Agrees c.value := by
  have hw := h.1.1
  rw [← hw.readings_cell hn] at hc
  obtain ⟨refresh, hmark⟩ : ∃ refresh, n.behavior.mark? = some refresh := by
    unfold Node.type at htype
    cases hb : n.behavior with
    | display s | feedback s => exact ⟨s.refresh, rfl⟩
    | _ => rw [hb] at htype; rcases htype with htype | htype <;> exact nomatch htype
  refine Node.firstValue?_of_mark? (hw.ports_indexed hn) (h.1.2.sound n (mem_of_nodeIn? hn)) hmark
    hc (h.copied hn now refresh hmark c hc)

/-- After its turn a path on a spline has on its output the point of the curve through the points
it reads then. -/
theorem Sustained.path {g : Graph} {id : NodeId} {rest : List NodeId}
    (h : Sustained (id :: rest) g) {n : Node} (hn : g.node? id = some n) (now : Moment) {m : Mover}
    (hb : (n.takeTurn now (supplyOf g.nodes n)).1.behavior = .path m)
    (hmode : m.mode = .closedSpline) {c : Cell}
    (hc : (runNode now g id).reading? (n.takeTurn now (supplyOf g.nodes n)).1
      PathMode.pointsInput = some c) {curve : ClosedSpline} (hcurve : Mover.curveOf c = some curve) :
    ∃ out, (n.takeTurn now (supplyOf g.nodes n)).1.ports.firstValue? = some out ∧
      out.Agrees (.vector3 (curve.position
        ((runNode now g id).parameterOf (n.takeTurn now (supplyOf g.nodes n)).1))) := by
  obtain ⟨⟨hw, hshape⟩, hsynced⟩ := h
  have hports := hw.ports_indexed hn
  have hvalue : c.value.isEmpty = false := by
    obtain ⟨_, _, _, _, _, hvalue⟩ := reading?_eq_some.mp hc
    exact hvalue
  have htype : n.type = .path := by
    rw [← Node.takeTurn_type now (supplyOf g.nodes n) n, Node.type, hb]
    rfl
  obtain ⟨m₀, hb₀⟩ : ∃ m₀, n.behavior = .path m₀ := by
    unfold Node.type at htype
    cases hb₀ : n.behavior with
    | path m₀ => exact ⟨m₀, rfl⟩
    | _ => rw [hb₀] at htype; exact nomatch htype
  have hread : (n.readings now (supplyOf g.nodes n)).cell PathMode.pointsInput = some c := by
    rw [hw.readings_cell hn]
    exact hc
  -- The mode after the turn is the one the turn was taken in.
  have hmode₀ : m₀.switched.mode = .closedSpline := by
    rw [Node.takeTurn_node, Node.outcome_of_path hb₀] at hb
    obtain ⟨m', hm', hsame⟩ := Behavior.disconnectedAll_path
      (m₀.switched.finish (n.readings now (supplyOf g.nodes n))).1
      (n.heldTurn now (supplyOf g.nodes n)).dropped
    cases hm'.symm.trans hb
    rw [Mover.mode_finish] at hsame
    exact hsame.symm.trans hmode
  have hcopy := hsynced.copy hw hn now (by rw [htype]; rfl) hc
  have hrefit := Mover.refit_of_copy hmode₀ (Node.copy_of_path hb₀ hvalue hcopy)
  have hposts := Mover.posts_finish hmode₀ hread hrefit hcurve
  obtain ⟨out, hout⟩ := (hshape.sound n (mem_of_nodeIn? hn)).exists_cell
    (show 0 < n.type.outputNames.length by rw [htype]; exact Nat.one_pos)
  have hheld : (n.heldTurn now (supplyOf g.nodes n)).ports.cell? 0 = some out.clearDirty := by
    rw [Node.cell?_heldTurn now _ hports, hout]
    rfl
  rw [← hw.parameter_eq hn now]
  rw [Node.takeTurn_node, Node.outcome_of_path hb₀, hposts]
  exact Directory.firstValue?_publish hheld _

/-- No update is lost: right after its turn in a frame, a display or a delay has the value that
its input shows on its output, and a path on a spline has the point of the curve through the
points that its input shows. -/
theorem outputs_current {g : Graph} (h : g.Reachable) (poll : Poll) (f : Clock → Clock)
    {done rest : List NodeId} {id : NodeId} (hids : g.ids = done ++ id :: rest) {n : Node}
    (hn : (g.inFrame poll f (done ++ [id])).node? id = some n) :
    ((n.type = .display ∨ n.type = .feedback) → ∀ c,
      (g.inFrame poll f (done ++ [id])).reading? n relayInput = some c →
        ∃ out, n.ports.firstValue? = some out ∧ out.Agrees c.value) ∧
    ∀ m, n.behavior = .path m → m.mode = .closedSpline → ∀ c points,
      (g.inFrame poll f (done ++ [id])).reading? n PathMode.pointsInput = some c →
        c.value = .vector3List points → points ≠ [] →
          ∃ curve, ClosedSpline.through points = some curve ∧
            ∃ out, n.ports.firstValue? = some out ∧ out.Agrees (.vector3 (curve.position
              ((g.inFrame poll f (done ++ [id])).parameterOf n))) := by
  have hbefore := h.sustained_inFrame poll f hids
  rw [inFrame_append] at hn ⊢
  obtain ⟨n₀, hn₀⟩ : ∃ n₀, (g.inFrame poll f done).node? id = some n₀ := by
    cases hnode : (g.inFrame poll f done).node? id with
    | none =>
        rw [runNode_of_none hnode, hnode] at hn
        exact nomatch hn
    | some n₀ => exact ⟨n₀, rfl⟩
  rw [node?_runNode hn₀, if_pos rfl] at hn
  cases hn
  refine ⟨fun htype c hc => ?_, fun m hb hmode c points hc hpoints hne => ?_⟩
  · rw [Node.takeTurn_type] at htype
    exact hbefore.relay hn₀ _ htype hc
  · obtain ⟨curve, hcurve⟩ := ClosedSpline.exists_through hne
    have hcell : Mover.curveOf c = some curve := by
      rw [Mover.curveOf, hpoints]
      exact hcurve
    exact ⟨curve, hcurve, hbefore.path hn₀ _ hb hmode hc hcell⟩

end Graph

end Patchbay

/-! ## With the standard engine -/

namespace Patchbay.Graph

/-- A display that is connected to a constant two frames after the constant was published. -/
def lateDisplay : Graph :=
  run [.create .value, .create .display, .step Poll.none 0, .step Poll.none 0,
    .connect ⟨0⟩ 0 ⟨2⟩ 0] (empty "late")

/-- The display has the constant after the next frame, although its cell is not flagged. -/
theorem outputs_current_of_lateDisplay :
    lateDisplay.Reachable ∧ lateDisplay.ids = [⟨0⟩] ++ ⟨2⟩ :: [] ∧
      ∃ n, (lateDisplay.inFrame Poll.none (·.step 0) ([⟨0⟩] ++ [⟨2⟩])).node? ⟨2⟩ = some n ∧
        n.type = .display ∧
        (lateDisplay.inFrame Poll.none (·.step 0) ([⟨0⟩] ++ [⟨2⟩])).reading? n relayInput =
          some ⟨.float .one, false⟩ ∧
        ∃ out, n.ports.firstValue? = some out ∧ out.Agrees (.float .one) := by
  have hreachable : lateDisplay.Reachable := ⟨_, _, rfl⟩
  have hids : lateDisplay.ids = [⟨0⟩] ++ ⟨2⟩ :: [] := by decide
  refine ⟨hreachable, hids, _, rfl, rfl, rfl, ?_⟩
  exact (outputs_current hreachable Poll.none (·.step 0) hids rfl).1 (Or.inl rfl) _ rfl

end Patchbay.Graph
