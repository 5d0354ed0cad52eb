import Patchbay.Formula.Basic
import Patchbay.Proofs.Attachments
import Patchbay.Proofs.Changes
import Patchbay.Proofs.Connections
import Patchbay.Proofs.Forwarding
/-!
The direction that a path goes by.

A path along a direction takes the vector that its input shows, if that is
long enough.  When it is not, or when there is none, the path goes on in the
direction that it took last, and it is told of a source that it loses in its
turn only when it has published its position.  So the position can depend on
frames that are long gone.  To say on which, a record is kept beside the
graph (`Action.sighted`): the vector that the path has seen last, as long as
the edges that bring its direction have stayed in place and its mode has not
changed.  `Node.Steers` says that the path goes by the record; it holds of
every graph, and `position_after_turn` draws the conclusion for a turn.
-/

namespace Patchbay

/-! ## The turn of a path -/

/-- The vector that the input for the direction shows, if it is long enough. -/
def Readings.heading? (r : Readings) : Option Vec3 :=
  (r.vector3? PathMode.directionInput).filter fun v => Single.epsilon.below v.length

namespace Mover

/-- The direction of a path that goes by a vector. -/
def course (seen : Option Vec3) : Vec3 := (seen.map Vec3.normalized).getD defaultForward

/-- What a path has seen before its turn; a new mode forgets it. -/
def retained (m : Mover) (seen : Option Vec3) : Option Vec3 :=
  if m.currentMode = m.mode then seen else none

/-- What a path goes by in its turn. -/
def sighted (m : Mover) (r : Readings) (seen : Option Vec3) : Option Vec3 :=
  if m.currentMode = .alongVector then r.heading?.or (m.retained seen) else m.retained seen

variable {m : Mover} {seen : Option Vec3}

theorem mode_switched (m : Mover) : m.switched.mode = m.currentMode := by
  unfold switched
  by_cases h : m.currentMode = m.mode
  · rw [if_pos h, h]
  · rw [if_neg h]

theorem start_switched (m : Mover) : m.switched.start = m.start := by
  unfold switched
  by_cases h : m.currentMode = m.mode
  · rw [if_pos h]
  · rw [if_neg h]

theorem forward_switched (h : m.forward = course seen) :
    m.switched.forward = course (m.retained seen) := by
  unfold switched retained
  by_cases hmode : m.currentMode = m.mode
  · rw [if_pos hmode, if_pos hmode]
    exact h
  · rw [if_neg hmode, if_neg hmode]
    rfl

theorem turned_eq (m : Mover) (r : Readings) :
    m.turned r = { m with forward := (r.heading?.map Vec3.normalized).getD m.forward } := by
  unfold turned Readings.heading?
  cases r.vector3? PathMode.directionInput with
  | none => rfl
  | some v =>
      simp only [Option.filter_some]
      by_cases h : Single.epsilon.below v.length = true
      · rw [if_pos h, if_pos h]
        rfl
      · rw [if_neg h, if_neg h]
        rfl

theorem forward_turned (h : m.forward = course seen) (r : Readings) :
    (m.turned r).forward = course (r.heading?.or seen) := by
  rw [turned_eq]
  cases r.heading? with
  | none => exact h
  | some v => rfl

theorem refitted_eq (m : Mover) (c : Cell) :
    m.refitted c = { m with spline := (m.refitted c).spline } := by
  unfold refitted
  split <;> rfl

/-- On a spline only the spline and the error change. -/
theorem finishSpline_eq (m : Mover) (t : Single) (r : Readings) :
    ∃ spline error, (m.finishSpline t r).1 = { m with spline, error } := by
  unfold finishSpline
  cases r.cell PathMode.pointsInput with
  | none => exact ⟨m.spline, _, rfl⟩
  | some c =>
      simp only
      rw [refitted_eq]
      cases (m.refitted c).spline with
      | none => exact ⟨none, _, rfl⟩
      | some curve => exact ⟨some curve, _, rfl⟩

/-- A turn leaves the start, and only along a direction it looks at the input for it. -/
theorem finish_keeps (m : Mover) (r : Readings) :
    (m.finish r).1.start = m.start ∧
      (m.finish r).1.forward =
        if m.mode = .alongVector then (m.turned r).forward else m.forward := by
  unfold finish
  cases hmode : m.mode with
  | alongVector =>
      rw [turned_eq]
      exact ⟨rfl, rfl⟩
  | closedSpline =>
      obtain ⟨spline, error, hm⟩ :=
        m.finishSpline_eq ((r.float? PathMode.parameterInput).getD .zero) r
      show (m.finishSpline _ r).1.start = _ ∧ (m.finishSpline _ r).1.forward = _
      rw [hm]
      exact ⟨rfl, rfl⟩
  | _ => exact ⟨rfl, rfl⟩

theorem posts_finish_alongVector (h : m.mode = .alongVector) (r : Readings) :
    (m.finish r).2 =
      [.publish 0 (.vector3 (m.start + (m.turned r).forward.scale (parameter r)))] := by
  unfold finish
  rw [h, turned_eq]
  rfl

theorem course_sighted (h : m.forward = course seen) (r : Readings) :
    (m.switched.finish r).1.forward = course (m.sighted r seen) := by
  rw [(m.switched.finish_keeps r).2, mode_switched, forward_turned (forward_switched h), sighted]
  split
  · rfl
  · exact forward_switched h

/-- What a path goes by is shown in the turn, or it is what it has seen before in its mode. -/
theorem sighted_cases {r : Readings} (h : (m.sighted r seen).isSome = true) :
    (r.cell PathMode.directionInput).isSome = true ∨
      m.currentMode = m.mode ∧ seen.isSome = true := by
  cases hc : r.cell PathMode.directionInput with
  | some c => exact Or.inl rfl
  | none =>
      have hnone : r.heading? = none := by
        unfold Readings.heading? Readings.vector3? Readings.value?
        rw [hc]
        rfl
      have hretained : (m.retained seen).isSome = true := by
        unfold sighted at h
        rw [hnone] at h
        split at h
        · exact h
        · exact h
      unfold retained at hretained
      split at hretained
      · next hmode => exact Or.inr ⟨hmode, hretained⟩
      · exact nomatch hretained

/-- The inputs stay when the mode does. -/
theorem inputs_of_mode (h : m.currentMode = m.mode) : m.plan.inputs = none :=
  if_pos (m.mode_switched.trans h)

/-- Told of a source under a name, the path drops what belongs to the name. -/
theorem forward_disconnected (m : Mover) (input : String) :
    (m.disconnected input).forward =
      if input = PathMode.directionInput then defaultForward else m.forward := by
  unfold disconnected
  by_cases hpoints : input = PathMode.pointsInput
  · rw [if_pos hpoints, hpoints, if_neg (by decide)]
  · rw [if_neg hpoints]
    split <;> rfl

theorem start_disconnected (m : Mover) (input : String) :
    (m.disconnected input).start = m.start := by
  unfold disconnected
  split
  · rfl
  · split <;> rfl

theorem forward_connected (m : Mover) (input : String) :
    (m.connected input).forward = m.forward := by
  unfold connected
  split <;> rfl

end Mover

/-- The sources are lost under the name of the direction. -/
def Misled (lost : List Dropped) : Prop := ∃ d ∈ lost, d.name = PathMode.directionInput

instance (lost : List Dropped) : Decidable (Misled lost) :=
  inferInstanceAs (Decidable (∃ d ∈ lost, d.name = PathMode.directionInput))

variable [Formula.Engine]

/-- Told of lost sources, a path keeps its mode and its start, and its direction if that is not
among them. -/
theorem Behavior.disconnectedAll_keeps (m : Mover) (lost : List Dropped) :
    ∃ m', (Behavior.path m).disconnectedAll lost = .path m' ∧ m'.mode = m.mode ∧
      m'.start = m.start ∧
      m'.forward = if Misled lost then Mover.defaultForward else m.forward := by
  unfold Behavior.disconnectedAll
  induction lost generalizing m with
  | nil => exact ⟨m, rfl, rfl, rfl, (if_neg (by simp [Misled])).symm⟩
  | cons d lost ih =>
      obtain ⟨m', hm', hmode, hstart, hforward⟩ := ih (m.disconnected d.name)
      refine ⟨m', hm', hmode.trans (m.mode_disconnected d.name),
        hstart.trans (m.start_disconnected d.name), ?_⟩
      rw [hforward, m.forward_disconnected]
      by_cases hrest : Misled lost
      · have hall : Misled (d :: lost) := by
          obtain ⟨x, hx, hname⟩ := hrest
          exact ⟨x, List.mem_cons_of_mem d hx, hname⟩
        rw [if_pos hrest, if_pos hall]
      · rw [if_neg hrest]
        refine if_congr ⟨fun hd => ⟨d, List.mem_cons_self, hd⟩, ?_⟩ rfl rfl
        rintro ⟨x, hx, hname⟩
        rcases List.mem_cons.mp hx with rfl | hx
        · exact hname
        · exact absurd ⟨x, hx, hname⟩ hrest

namespace Behavior

variable {b : Behavior} {p' : Mover}

theorem exists_path (h : b.type = .path) : ∃ p, b = .path p := by
  cases b with
  | path p => exact ⟨p, rfl⟩
  | _ => exact nomatch h

/-- Where the behavior starts, if it is a path along a direction. -/
def alongFrom? : Behavior → Option Vec3
  | path p => if p.mode = .alongVector then some p.start else none
  | _ => none

theorem alongFrom?_eq_some {v : Vec3} :
    b.alongFrom? = some v ↔ ∃ p, b = .path p ∧ p.mode = .alongVector ∧ p.start = v := by
  constructor
  · intro h
    unfold alongFrom? at h
    split at h
    · next p =>
        split at h
        · next hmode => exact ⟨p, rfl, hmode, Option.some.inj h⟩
        · exact nomatch h
    · exact nomatch h
  · rintro ⟨p, rfl, hmode, rfl⟩
    exact if_pos hmode

/-- A path that has been told of lost sources. -/
theorem forward_of_disconnectedAll {lost : List Dropped} (h : b.disconnectedAll lost = .path p') :
    ∃ p, b = .path p ∧ p'.forward = if Misled lost then Mover.defaultForward else p.forward := by
  obtain ⟨p, rfl⟩ := exists_path ((b.type_disconnectedAll lost).symm.trans (congrArg type h))
  obtain ⟨m', hm', -, -, hforward⟩ := disconnectedAll_keeps p lost
  cases hm'.symm.trans h
  exact ⟨p, rfl, hforward⟩

/-- A path that has been told of one. -/
theorem forward_of_disconnected {input : String} (h : b.disconnected input = .path p') :
    ∃ p, b = .path p ∧
      p'.forward = if input = PathMode.directionInput then Mover.defaultForward else p.forward := by
  obtain ⟨p, rfl⟩ := exists_path ((b.type_disconnected input).symm.trans (congrArg type h))
  cases h
  exact ⟨p, rfl, p.forward_disconnected input⟩

/-- A path that has been told of a new source. -/
theorem forward_of_connected {input : String} {info : ProducerInfo}
    (h : b.connected input info = .path p') : ∃ p, b = .path p ∧ p'.forward = p.forward := by
  obtain ⟨p, rfl⟩ := exists_path ((b.type_connected input info).symm.trans (congrArg type h))
  cases h
  exact ⟨p, rfl, p.forward_connected input⟩

/-- A path has no direction of its own. -/
def Unled (b : Behavior) : Prop := ∀ p, b = .path p → p.forward = Mover.defaultForward

/-- No path has one out of a scene. -/
theorem unled_get (t : NodeType) : (get t).Yields Unled := by
  cases t with
  | path =>
      refine BlockReader.Yields.map (Q := fun m => m.forward = Mover.defaultForward) ?_
        fun m hm p hp => ?_
      · refine BlockReader.yields_after fun mode => BlockReader.yields_after fun pending => ?_
        exact BlockReader.yields_after fun start => BlockReader.yields_pure rfl
      · cases hp
        exact hm
  | listJoin | time | display | feedback =>
      refine BlockReader.yields_pure ?_
      exact fun p hp => nomatch hp
  | _ =>
      refine BlockReader.yields_map fun s => ?_
      exact fun p hp => nomatch hp

/-- A path of which a field has been set. -/
theorem forward_of_onBehavior {s : Setting} (h : s.onBehavior b = .path p') :
    ∃ p, b = .path p ∧ p'.forward = p.forward := by
  obtain ⟨p, rfl⟩ := exists_path ((s.type_onBehavior b).symm.trans (congrArg type h))
  refine ⟨p, rfl, ?_⟩
  cases s <;> cases h <;> rfl

end Behavior

namespace Node

/-- What the path has seen after its turn, if the node is one. -/
def sighted (now : Moment) (supply : Supply) (n : Node) (seen : Option Vec3) : Option Vec3 :=
  match n.behavior with
  | .path m =>
    if Misled (n.takeTurn now supply).2 then none else m.sighted (n.readings now supply) seen
  | _ => none

/-- A path goes by the record, and when there is something in it the input for the direction has a
source. -/
structure Steers (seen : Option Vec3) (n : Node) : Prop where
  course : ∀ m, n.behavior = .path m → m.forward = Mover.course seen
  sourced : seen.isSome = true → (n.sourceNamed? PathMode.directionInput).isSome = true

variable {n : Node} {seen : Option Vec3} {now : Moment} {supply : Supply}

theorem steers_none (h : n.behavior.Unled) : n.Steers none where
  course := h
  sourced hsome := nomatch hsome

/-- What a turn leaves of the path before it. -/
theorem path_of_takeTurn {p : Mover} (hp : (n.takeTurn now supply).1.behavior = .path p) :
    ∃ q, n.behavior = .path q ∧ p.mode = q.currentMode ∧ p.start = q.start ∧
      p.forward = if Misled (n.takeTurn now supply).2 then Mover.defaultForward
        else (q.switched.finish (n.readings now supply)).1.forward := by
  have htype : n.type = .path := by
    rw [← takeTurn_type now supply n, type, hp]
    rfl
  obtain ⟨q, hq⟩ := Behavior.exists_path htype
  rw [takeTurn_node, outcome_of_path hq] at hp
  obtain ⟨p', hp', hmode, hstart, hforward⟩ := Behavior.disconnectedAll_keeps
    (q.switched.finish (n.readings now supply)).1 (n.heldTurn now supply).dropped
  cases hp'.symm.trans hp
  rw [Mover.mode_finish, q.mode_switched] at hmode
  rw [(q.switched.finish_keeps _).1, q.start_switched] at hstart
  exact ⟨q, hq, hmode, hstart, hforward⟩

/-- In its turn a path goes by what it sees. -/
theorem position_takeTurn (hn : n.ports.Indexed) (hs : n.Sound) (h : n.Steers seen) {m : Mover}
    (hb : n.behavior = .path m) (hmode : m.currentMode = .alongVector) :
    Shows (n.takeTurn now supply).1.ports.firstValue?
      (.vector3 (m.start + (Mover.course (m.sighted (n.readings now supply) seen)).scale
        (Mover.parameter (n.readings now supply)))) := by
  obtain ⟨c, hc⟩ := hs.exists_cell (o := 0) (by rw [type, hb]; exact Nat.one_pos)
  refine firstValue?_of_publish hn hc ?_
  rw [outcome_of_path hb]
  have hsame : m.switched.mode = .alongVector := m.mode_switched.trans hmode
  have hcourse := Mover.course_sighted (h.course m hb) (n.readings now supply)
  rw [(m.switched.finish_keeps _).2, if_pos hsame] at hcourse
  show (m.switched.finish _).2 = _
  rw [Mover.posts_finish_alongVector hsame, hcourse, m.start_switched]

/-- Which direction a path takes in its turn. -/
theorem course_takeTurn (hn : n.ports.Indexed) (hs : n.Sound) (h : n.Steers seen) {p : Mover}
    (hb : (n.takeTurn now supply).1.behavior = .path p) (hmode : p.mode = .alongVector) :
    ∃ q d, n.behavior = .path q ∧
      Shows (n.takeTurn now supply).1.ports.firstValue?
        (.vector3 (p.start + d.scale (Mover.parameter (n.readings now supply)))) ∧
      (∀ v, (n.readings now supply).heading? = some v → d = v.normalized) ∧
      ((n.readings now supply).heading? = none → d = Mover.course (q.retained seen) ∧
        (n.sourceNamed? PathMode.directionInput = none → d = Mover.defaultForward)) := by
  obtain ⟨q, hq, hmode', hstart, -⟩ := path_of_takeTurn hb
  have hcurrent : q.currentMode = .alongVector := hmode'.symm.trans hmode
  have hsighted : q.sighted (n.readings now supply) seen =
      (n.readings now supply).heading?.or (q.retained seen) := if_pos hcurrent
  refine ⟨q, Mover.course (q.sighted (n.readings now supply) seen), hq, ?_, ?_, ?_⟩
  · rw [hstart]
    exact position_takeTurn hn hs h hq hcurrent
  · intro v hv
    rw [hsighted, hv]
    rfl
  · intro hnone
    rw [hsighted, hnone, Option.none_or]
    refine ⟨rfl, fun hfree => ?_⟩
    -- without a source nothing has been seen
    have hunseen : seen = none := by
      refine Option.not_isSome_iff_eq_none.mp fun hsome => ?_
      have hsource := h.sourced hsome
      rw [hfree] at hsource
      exact nomatch hsource
    rw [hunseen, Mover.retained, ite_self]
    rfl

theorem Steers.takeTurn (h : n.Steers seen) (hn : n.ports.Indexed) :
    (n.takeTurn now supply).1.Steers (n.sighted now supply seen) where
  course p hp := by
    obtain ⟨q, hq, -, -, hforward⟩ := path_of_takeTurn hp
    rw [hforward, sighted, hq]
    show ite _ _ _ = Mover.course (ite _ _ _)
    split
    · rfl
    · exact Mover.course_sighted (h.course q hq) _
  sourced hsome := by
    unfold sighted at hsome
    cases hb : n.behavior with
    | path m =>
        simp only [hb] at hsome
        split at hsome
        · exact nomatch hsome
        · next hkept =>
            rcases m.sighted_cases hsome with hread | ⟨hmode, hseen⟩
            · exact sourced_of_read hread
            · refine sourced_of_kept hn ?_ (fun x hx hname => hkept ⟨x, hx, hname⟩)
                (h.sourced hseen)
              exact (inputs_of_path hb).trans (m.inputs_of_mode hmode)
    | _ =>
        simp only [hb] at hsome
        exact nomatch hsome

/-! ## Edits of the wiring -/

/-- Edits give a path no direction of its own. -/
theorem durable_steers : Durable (Steers none) := by
  have hdurable : Durable fun n => n.behavior.Unled := by
    refine durable_of_behavior (B := fun b _ => b.Unled) ?_ ?_ ?_
    · intro b out input info h p' hp'
      obtain ⟨p, hp, hsame⟩ := Behavior.forward_of_connected hp'
      exact hsame.trans (h p hp)
    · intro b out input h p' hp'
      obtain ⟨p, hp, hforward⟩ := Behavior.forward_of_disconnected hp'
      rw [hforward, h p hp, ite_self]
    · intro b out s h p' hp'
      obtain ⟨p, hp, hsame⟩ := Behavior.forward_of_onBehavior hp'
      exact hsame.trans (h p hp)
  exact ⟨fun i h => steers_none (hdurable.detach i h.course),
    fun e source o i h => steers_none (hdurable.attach e source o i h.course),
    fun s h => steers_none (hdurable.set s h.course)⟩

theorem steers_create (t : NodeType) (c : Context) (id : NodeId) :
    Steers none { (create t c).1 with id } := by
  refine steers_none fun m hm => ?_
  cases t with
  | path =>
      cases hm
      rfl
  | _ => exact nomatch hm

/-- A node whose wiring has been edited.  If a source of the input for its direction is cut, a path
has been told; otherwise it has its direction, and sources where it had them. -/
structure Rewired (cut : Prop) (n m : Node) : Prop where
  told : ∀ p', m.behavior = .path p' → ∃ p, n.behavior = .path p ∧
    (cut → p'.forward = Mover.defaultForward) ∧ (¬cut → p'.forward = p.forward)
  names : m.ports.inputNames = n.ports.inputNames
  sources : ¬cut → ∀ i a, n.ports.inputNames[i]? = some PathMode.directionInput →
    n.ports.source? i = some a → (m.ports.source? i).isSome = true

theorem Rewired.congr {cut cut' : Prop} {m : Node} (h : Rewired cut n m) (hcut : cut ↔ cut') :
    Rewired cut' n m := by
  rw [← propext hcut]
  exact h

/-- After an edit a path goes by what it has seen, unless the source has been cut. -/
theorem Steers.rewired {cut : Prop} [Decidable cut] {m : Node} (h : n.Steers seen)
    (hm : Rewired cut n m) : m.Steers (if cut then none else seen) := by
  by_cases hcut : cut
  · rw [if_pos hcut]
    refine steers_none fun p' hp' => ?_
    obtain ⟨p, -, htold, -⟩ := hm.told p' hp'
    exact htold hcut
  · rw [if_neg hcut]
    refine ⟨fun p' hp' => ?_, fun hsome => ?_⟩
    · obtain ⟨p, hp, -, hkept⟩ := hm.told p' hp'
      exact (hkept hcut).trans (h.course p hp)
    · exact isSome_sourceNamed? hm.names (hm.sources hcut) (h.sourced hsome)

omit [Formula.Engine] in
theorem split_forward {cut : Prop} [Decidable cut] {p p' : Mover}
    (h : p'.forward = if cut then Mover.defaultForward else p.forward) :
    (cut → p'.forward = Mover.defaultForward) ∧ (¬cut → p'.forward = p.forward) :=
  ⟨fun hcut => h.trans (if_pos hcut), fun hcut => h.trans (if_neg hcut)⟩

theorem rewired_of_severed {id : NodeId} {m : Node} (h : n.Severed id m) :
    Rewired (Misled (n.ports.lostTo id)) n m := by
  obtain ⟨lost, hperm, rfl⟩ := h
  have hmisled : Misled lost ↔ Misled (n.ports.lostTo id) :=
    exists_congr fun d => and_congr_left fun _ => hperm.mem_iff
  refine ⟨fun p' hp' => ?_, ?_, fun hkept i a hi hs => ?_⟩
  · obtain ⟨p, hp, hforward⟩ := Behavior.forward_of_disconnectedAll hp'
    rw [if_congr hmisled rfl rfl] at hforward
    exact ⟨p, hp, split_forward hforward⟩
  · show (n.ports.inputs.map (InputPort.severed id)).map InputPort.name = _
    rw [List.map_map]
    exact List.map_congr_left fun p _ => p.name_severed id
  · obtain ⟨p, hp, ha⟩ := Directory.source?_eq_some.mp hs
    have hname : p.name = PathMode.directionInput := by
      rw [Directory.inputNames, List.getElem?_map, hp] at hi
      exact Option.some.inj hi
    have hnone : ¬(p.loss? id).isSome = true := by
      intro hsome
      obtain ⟨d, hd⟩ := Option.isSome_iff_exists.mp hsome
      obtain ⟨hda, hproducer, hdname⟩ := InputPort.loss?_eq_some.mp hd
      exact hkept ⟨d, Directory.mem_lostTo.mpr ⟨i, p, hp, hda, hproducer, hdname⟩,
        hdname.trans hname⟩
    have hsame : p.severed id = p := if_neg hnone
    have hport : (n.ports.inputs.map (InputPort.severed id))[i]? = some p := by
      rw [List.getElem?_map, hp, Option.map_some, hsame]
    rw [show Directory.source? _ i = some a from Directory.source?_eq_some.mpr ⟨p, hport, ha⟩]
    rfl

theorem rewired_attachedNode {e : Edge} {p : InputPort}
    (hp : n.ports.inputs[e.address.input.toNat]? = some p) (source : Node) (o : OutputPort) :
    Rewired (p.isConnected = true ∧ p.name = PathMode.directionInput) n
      (Graph.attachedNode e source o p n) where
  told p' hp' := by
    rw [Graph.attachedNode_eq] at hp'
    obtain ⟨q, hq, hsame⟩ := Behavior.forward_of_connected hp'
    by_cases hconnected : p.isConnected = true
    · rw [if_pos hconnected] at hq
      obtain ⟨m, hm, hforward⟩ := Behavior.forward_of_disconnected hq
      rw [← hsame] at hforward
      exact ⟨m, hm, fun hcut => hforward.trans (if_pos hcut.2), fun hcut =>
        hforward.trans (if_neg fun hname => hcut ⟨hconnected, hname⟩)⟩
    · rw [if_neg hconnected] at hq
      exact ⟨q, hq, fun hcut => absurd hcut.1 hconnected, fun _ => hsame⟩
  names := Graph.inputNames_attachedNode e source o p n
  sources _ i a _ hs := by
    rw [Graph.ports_attachedNode, Directory.source?_attach hp, hs]
    split <;> rfl

theorem rewired_detach {i : Nat} {p : InputPort} (hp : n.ports.inputs[i]? = some p) :
    Rewired (p.name = PathMode.directionInput) n (n.detach i) where
  told p' hp' := by
    rw [detach_eq_refed hp] at hp'
    obtain ⟨m, hm, hforward⟩ := Behavior.forward_of_disconnected hp'
    exact ⟨m, hm, split_forward hforward⟩
  names := n.inputNames_detach i
  sources hkept j a hj hs := by
    have hother : i ≠ j := by
      rintro rfl
      rw [Directory.inputNames, List.getElem?_map, hp] at hj
      exact hkept (Option.some.inj hj)
    rw [n.source?_detach, if_neg hother, hs]
    rfl

theorem rewired_onNode (n : Node) (s : Setting) : Rewired False n (s.onNode n) where
  told p' hp' := by
    have hforward : ∃ p, n.behavior = .path p ∧ p'.forward = p.forward := by
      rcases s.onNode_cases n with ⟨_, _, hs⟩ | ⟨_, hs⟩ | hs
      · rw [hs] at hp'
        exact ⟨p', hp', rfl⟩
      · rw [hs] at hp'
        exact ⟨p', hp', rfl⟩
      · rw [hs] at hp'
        exact Behavior.forward_of_onBehavior hp'
    obtain ⟨p, hp, hsame⟩ := hforward
    exact ⟨p, hp, False.elim, fun _ => hsame⟩
  names := congrArg Directory.inputNames (s.ports_onNode n)
  sources _ i a _ hs := by
    rw [s.ports_onNode, hs]
    rfl

theorem Rewired.refl (n : Node) : Rewired False n n where
  told p hp := ⟨p, hp, False.elim, fun _ => rfl⟩
  names := rfl
  sources _ _ _ _ hs := by
    rw [hs]
    rfl

end Node

/-! ## The record -/

namespace Graph

/-- The edges that feed inputs for the direction of the node `x`. -/
def steering (g : Graph) (x : NodeId) : List Edge :=
  g.edges.edges.filter fun e => e.consumer == x && (g.node? x).any fun n =>
    n.ports.inputNames[e.address.input.toNat]? == some PathMode.directionInput

/-- The identity that has no node, or another one, after an action. -/
def Action.displaces? : Action → Graph → Option NodeId
  | create t, g => some (g.createNode t).1
  | add t c, _ => some (Node.create t c).1.id
  | remove id, _ => some id
  | _, _ => none

/-- Whether an action takes an edge away or puts one in its place, be it the same. -/
def Action.cuts (a : Action) (g : Graph) (e : Edge) : Bool :=
  match a with
  | connect producer output consumer input =>
    (g.connect producer output consumer input).toOption.any (·.1.slot == e.slot)
  | connectNamed producer output consumer input =>
    (g.connectNamed producer output consumer input).toOption.any (·.1.slot == e.slot)
  | disconnect consumer input => e.consumer == consumer && e.address.input.toNat == input
  | a => (a.displaces? g).any e.involves

/-- An action cuts an edge that brings a direction to the node `x`. -/
def Action.Misleads (a : Action) (g : Graph) (x : NodeId) : Prop :=
  ∃ e ∈ g.steering x, a.cuts g e = true

instance (a : Action) (g : Graph) (x : NodeId) : Decidable (a.Misleads g x) :=
  inferInstanceAs (Decidable (∃ e ∈ g.steering x, a.cuts g e = true))

/-- What the node `x` has seen after a frame. -/
def Frame.sighted (frame : Frame) (x : NodeId) (g : Graph) (seen : Option Vec3) : Option Vec3 :=
  (g.node? x).bind fun n => n.sighted ((g.withClock frame.read).moment frame.poll)
    (supplyOf (g.inFrame frame.poll frame.read (g.ids.takeWhile (· != x))).nodes n) seen

/-- What the node `x` has seen after an action.  Between frames the record is given up when the
node goes or comes, and when an edge is cut that brings it a direction. -/
def Action.sighted (x : NodeId) (a : Action) (g : Graph) (seen : Option Vec3) : Option Vec3 :=
  match a with
  | step poll dt => (Frame.step poll dt).sighted x g seen
  | tick poll now => (Frame.tick poll now).sighted x g seen
  | clear | load _ => none
  | a => if a.displaces? g = some x ∨ a.Misleads g x then none else seen

/-- The vector that the node `x` has seen last in a run, if it still goes by it. -/
def lastSeen (x : NodeId) (actions : List Action) (g : Graph) (seen : Option Vec3) : Option Vec3 :=
  match actions with
  | [] => seen
  | a :: actions => lastSeen x actions (a.apply g) (a.sighted x g seen)

/-- The node `x`, if it is a path, goes by the record. -/
def Steered (x : NodeId) (seen : Option Vec3) (g : Graph) : Prop :=
  ∀ n, g.node? x = some n → n.Steers seen

variable {g : Graph} {x : NodeId} {seen : Option Vec3}

/-- The edges that bring a direction are the sources of the inputs of the name. -/
theorem Wired.exists_steering (h : g.Wired) {n : Node} (hn : g.node? x = some n)
    {P : Edge → Prop} :
    (∃ e ∈ g.steering x, P e) ↔
      ∃ (i : Nat) (p : InputPort) (a : Address), n.ports.inputs[i]? = some p ∧
        p.name = PathMode.directionInput ∧ p.source = some a ∧ a.input.toNat = i ∧ P ⟨x, a⟩ := by
  unfold steering
  simp only [List.mem_filter, hn, Option.any_some, Bool.and_eq_true, beq_iff_eq]
  constructor
  · rintro ⟨e, ⟨he, rfl, hname⟩, hP⟩
    obtain ⟨m, hm, hports⟩ := source?_eq_some.mp ((h.edge_iff e).mp he)
    cases hn.symm.trans hm
    obtain ⟨p, hp, ha⟩ := Directory.source?_eq_some.mp hports
    rw [Directory.inputNames, List.getElem?_map, hp] at hname
    exact ⟨_, p, e.address, hp, Option.some.inj hname, ha, rfl, hP⟩
  · rintro ⟨i, p, a, hp, hname, ha, rfl, hP⟩
    have hsource : g.source? x a.input.toNat = some a :=
      source?_eq_some.mpr ⟨n, hn, Directory.source?_eq_some.mpr ⟨p, hp, ha⟩⟩
    refine ⟨⟨x, a⟩, ⟨(h.edge_iff ⟨x, a⟩).mpr hsource, rfl, ?_⟩, hP⟩
    rw [Directory.inputNames, List.getElem?_map, hp, ← hname]
    rfl

/-! ## Actions -/

/-- A node when another one has been removed. -/
theorem Wired.rewired_removeNode (h : g.Wired) {id : NodeId} (hx : x ≠ id) {n m : Node}
    (hn : g.node? x = some n) (hm : (g.removeNode id).node? x = some m) :
    n.Rewired (∃ e ∈ g.steering x, e.involves id = true) m := by
  obtain ⟨m', hm', hsevered⟩ := h.severed hn hx
  cases hm'.symm.trans hm
  refine (Node.rewired_of_severed hsevered).congr ?_
  rw [h.exists_steering hn]
  constructor
  · rintro ⟨d, hd, hname⟩
    obtain ⟨i, p, hp, ha, hproducer, hdname⟩ := Directory.mem_lostTo.mp hd
    have hi := h.ports_indexed hn i _ (Directory.source?_eq_some.mpr ⟨p, hp, ha⟩)
    exact ⟨i, p, _, hp, hdname.symm.trans hname, ha, hi,
      by simp [Edge.involves, Edge.producer, hproducer]⟩
  · rintro ⟨i, p, a, hp, hname, ha, -, hinvolves⟩
    have hproducer : a.producer = id := by
      simpa [Edge.involves, Edge.producer, hx] using hinvolves
    exact ⟨⟨p.name, a⟩, Directory.mem_lostTo.mpr ⟨i, p, hp, ha, hproducer, rfl⟩, hname⟩

/-- A node when an edge has been attached. -/
theorem Wired.rewired_attached (h : g.Wired) {e : Edge} {source target : Node} {o : OutputPort}
    {i : InputPort} (ha : Attachable g e source target o i) {n m : Node} (hn : g.node? x = some n)
    (hm : (g.attached e source o i).node? x = some m) :
    n.Rewired (∃ e' ∈ g.steering x, (e.slot == e'.slot) = true) m := by
  rw [node?_attached] at hm
  split at hm
  · next hx =>
      subst hx
      rw [ha.hasTarget] at hn hm
      cases hn
      cases hm
      refine (Node.rewired_attachedNode ha.hasInput source o).congr ?_
      rw [h.exists_steering ha.hasTarget]
      constructor
      · rintro ⟨hconnected, hname⟩
        obtain ⟨a, hsource⟩ := Option.isSome_iff_exists.mp hconnected
        have hi := h.ports_indexed ha.hasTarget _ a
          (Directory.source?_eq_some.mpr ⟨i, ha.hasInput, hsource⟩)
        refine ⟨_, i, a, ha.hasInput, hname, hsource, hi, ?_⟩
        simp [Edge.slot, UInt8.toNat_inj.mp hi]
      · rintro ⟨j, p, a, hp, hname, hsource, rfl, hslot⟩
        have hi : e.address.input = a.input := by simpa [Edge.slot] using hslot
        rw [← hi, ha.hasInput] at hp
        cases hp
        exact ⟨by rw [InputPort.isConnected, hsource]; rfl, hname⟩
  · next hx =>
      cases hn.symm.trans hm
      refine (Node.Rewired.refl n).congr (iff_of_false id ?_)
      rw [h.exists_steering hn]
      rintro ⟨j, p, a, -, -, -, -, hslot⟩
      have hconsumer : e.consumer = x := (Prod.mk.inj (beq_iff_eq.mp hslot)).1
      exact hx hconsumer.symm

/-- A node when an edge has been taken away. -/
theorem Wired.rewired_detached (h : g.Wired) {e : Edge} (he : e ∈ g.edges.edges) {n m : Node}
    (hn : g.node? x = some n) (hm : (g.detached e.consumer e.address.input).node? x = some m) :
    n.Rewired (∃ e' ∈ g.steering x,
      (e'.consumer == e.consumer && e'.address.input.toNat == e.address.input.toNat) = true) m := by
  rw [node?_detached] at hm
  split at hm
  · next hx =>
      subst hx
      rw [hn] at hm
      cases hm
      obtain ⟨k, hk, hports⟩ := source?_eq_some.mp ((h.edge_iff e).mp he)
      cases hn.symm.trans hk
      obtain ⟨p, hp, ha⟩ := Directory.source?_eq_some.mp hports
      refine (Node.rewired_detach hp).congr ?_
      rw [h.exists_steering hn]
      constructor
      · intro hname
        exact ⟨_, p, e.address, hp, hname, ha, rfl, by simp⟩
      · rintro ⟨j, q, a, hq, hname, -, rfl, hsame⟩
        have hi : a.input.toNat = e.address.input.toNat := by simpa using hsame
        rw [hi, hp] at hq
        cases hq
        exact hname
  · next hx =>
      cases hn.symm.trans hm
      refine (Node.Rewired.refl n).congr (iff_of_false id ?_)
      rw [h.exists_steering hn]
      rintro ⟨j, p, a, -, -, -, -, hsame⟩
      exact hx (by simpa using (Bool.and_eq_true_iff.mp hsame).1)

/-- What a node goes by after an action by which it was made anew, or rewired. -/
theorem Steered.after {g' : Graph} {gone cut : Prop} [Decidable gone] [Decidable cut]
    (h : Steered x seen g) (hgone : gone → ∀ m, g'.node? x = some m → m.Steers none)
    (hkept : ¬gone → ∀ m, g'.node? x = some m → ∃ n, g.node? x = some n ∧ n.Rewired cut m) :
    Steered x (if gone ∨ cut then none else seen) g' := by
  intro m hm
  by_cases hg : gone
  · rw [if_pos (Or.inl hg)]
    exact hgone hg m hm
  · obtain ⟨n, hn, hrewired⟩ := hkept hg m hm
    have hm := (h n hn).rewired hrewired
    rw [if_congr (or_iff_right hg) rfl rfl]
    exact hm

/-- A node that is there after a removal was there before. -/
theorem exists_node_before_removal {id : NodeId} {m : Node}
    (hm : (g.removeNode id).node? x = some m) :
    x ≠ id ∧ ∃ n, g.node? x = some n := by
  have hmem := mem_ids_of_node? hm
  rw [ids_removeNode, List.mem_filter] at hmem
  exact ⟨by simpa using hmem.2, exists_node_of_mem_ids hmem.1⟩

theorem Steered.remove (hw : g.Wired) (h : Steered x seen g) (id : NodeId) :
    Steered x (if some id = some x ∨ ∃ e ∈ g.steering x, e.involves id = true then none else seen)
      (g.removeNode id) := by
  refine h.after (fun hid m hm => ?_) fun _ m hm => ?_
  · exact absurd (Option.some.inj hid).symm (exists_node_before_removal hm).1
  · obtain ⟨hx, n, hn⟩ := exists_node_before_removal hm
    exact ⟨n, hn, hw.rewired_removeNode hx hn hm⟩

theorem Steered.add (hw : g.Wired) (h : Steered x seen g) {n : Node} (hn : n.Steers none) :
    Steered x (if some n.id = some x ∨ ∃ e ∈ g.steering x, e.involves n.id = true then none
      else seen) (g.addNode n) := by
  refine h.after (fun hid m hm => ?_) fun hid m hm => ?_
  · rw [addNode_eq, node?_inserted (not_mem_ids_removeNode g n.id),
      if_pos (Option.some.inj hid).symm] at hm
    cases hm
    exact hn
  · rw [addNode_eq, node?_inserted (not_mem_ids_removeNode g n.id),
      if_neg fun hx => hid (congrArg some hx.symm)] at hm
    obtain ⟨hx, k, hk⟩ := exists_node_before_removal hm
    exact ⟨k, hk, hw.rewired_removeNode hx hk hm⟩

/-- Of a call that connects, or fails. -/
theorem Steered.connectedOr (hw : g.Wired) (h : Steered x seen g)
    {r : Except ConnectionError (Edge × Graph)}
    (hr : ∀ e g', r = .ok (e, g') → ∃ source target o i, Attachable g e source target o i ∧
      g' = g.attached e source o i) :
    Steered x (if none = some x ∨ ∃ e ∈ g.steering x, r.toOption.any (·.1.slot == e.slot) = true
      then none else seen) (g.connectedOr r) := by
  refine h.after (fun hnone => nomatch hnone) fun _ m hm => ?_
  cases hresult : r with
  | ok r' =>
      obtain ⟨e, g'⟩ := r'
      obtain ⟨source, target, o, i, ha, rfl⟩ := hr e g' hresult
      rw [hresult] at hm
      have hm : (g.attached e source o i).node? x = some m := hm
      have hmem : x ∈ g.ids := ids_attached (g := g) ▸ mem_ids_of_node? hm
      obtain ⟨n, hn⟩ := exists_node_of_mem_ids hmem
      exact ⟨n, hn, hw.rewired_attached ha hn hm⟩
  | error e =>
      rw [hresult] at hm
      refine ⟨m, hm, (Node.Rewired.refl m).congr (iff_of_false id ?_)⟩
      exact fun ⟨_, _, hfalse⟩ => nomatch hfalse

theorem Steered.disconnect (hw : g.Wired) (h : Steered x seen g) (consumer : NodeId) (input : Nat) :
    Steered x ((Action.disconnect consumer input).sighted x g seen)
      ((Action.disconnect consumer input).apply g) := by
  refine h.after (fun hnone => nomatch hnone) fun _ m hm => ?_
  have hm : (((g.disconnect consumer input).map Prod.snd).getD g).node? x = some m := hm
  cases hd : g.disconnect consumer input with
  | some r =>
      obtain ⟨e, g'⟩ := r
      obtain ⟨⟨he, rfl, rfl⟩, rfl⟩ := hw.disconnect_succeeds_iff.mp hd
      rw [hd] at hm
      have hm : (g.detached e.consumer e.address.input).node? x = some m := hm
      have hmem : x ∈ g.ids := ids_detached g e.consumer e.address.input ▸ mem_ids_of_node? hm
      obtain ⟨n, hn⟩ := exists_node_of_mem_ids hmem
      exact ⟨n, hn, hw.rewired_detached he hn hm⟩
  | none =>
      rw [hd] at hm
      refine ⟨m, hm, (Node.Rewired.refl m).congr (iff_of_false id ?_)⟩
      rintro ⟨e, he, hsame⟩
      obtain ⟨hconsumer, hinput⟩ := Bool.and_eq_true_iff.mp hsame
      have hedge : e ∈ g.edges.edges := (List.mem_filter.mp he).1
      have hsome := hw.disconnect_succeeds_iff.mpr
        ⟨⟨hedge, beq_iff_eq.mp hconsumer, beq_iff_eq.mp hinput⟩, rfl⟩
      rw [hd] at hsome
      exact nomatch hsome

theorem Steered.set (h : Steered x seen g) (y : NodeId) (s : Setting) :
    Steered x ((Action.set y s).sighted x g seen) (g.modifyNode y s.onNode) := by
  refine h.after (fun hnone => nomatch hnone) fun _ m hm => ?_
  have huncut : False ↔ (Action.set y s).Misleads g x :=
    iff_of_false id fun ⟨_, _, hcut⟩ => Bool.false_ne_true hcut
  rw [node?_set] at hm
  split at hm
  · obtain ⟨n, hn, rfl⟩ := Option.map_eq_some_iff.mp hm
    exact ⟨n, hn, (Node.rewired_onNode n s).congr huncut⟩
  · exact ⟨m, hm, (Node.Rewired.refl m).congr huncut⟩

theorem Steered.use (h : Steered x seen g) (c : Context) :
    Steered x ((Action.use c).sighted x g seen) { g with context := c } := by
  refine h.after (fun hnone => nomatch hnone) fun _ m hm => ⟨m, hm, ?_⟩
  exact (Node.Rewired.refl m).congr (iff_of_false id fun ⟨_, _, hcut⟩ => Bool.false_ne_true hcut)

/-- No path that comes out of a scene has a direction of its own. -/
theorem steered_load (x : NodeId) (g : Graph) (bytes : List UInt8) :
    Steered x none (g.load bytes).2 :=
  throughout_load Node.durable_steers g
    (fun _ hn => Node.steers_none (Action.behavior_of_load Behavior.unled_get hn)) x

/-- The node after a frame, and what it has seen. -/
theorem Steered.frame (hg : g.Reachable) (h : Steered x seen g) (frame : Frame) :
    Steered x (frame.sighted x g seen) (frame.apply g) := by
  intro m hm
  rw [frame.apply_read] at hm
  obtain ⟨n, done, rest, hn, hids, rfl⟩ := exists_turn hg.wired.nodup hm
  unfold Frame.sighted
  rw [hn, Option.bind_some, takeWhile_ids hg.wired.nodup hids]
  exact (h n hn).takeTurn (hg.wired.ports_indexed hn)

theorem Steered.apply (hg : g.Reachable) (h : Steered x seen g) (a : Action) :
    Steered x (a.sighted x g seen) (a.apply g) := by
  have hw := hg.wired
  cases a with
  | create t =>
      exact Steered.add (g := { g with context := (Node.create t g.context).2 })
        ⟨hw.nodup, hw.edge_iff, hw.indexed, hw.apart, hw.producer⟩ h
        (Node.steers_create t g.context _)
  | add t c => exact h.add hw (Node.steers_create t c _)
  | remove id => exact h.remove hw id
  | connect producer output consumer input =>
      refine h.connectedOr hw fun e g' hr => (connect_eq_ok.mp hr).2
  | connectNamed producer output consumer input =>
      refine h.connectedOr hw fun e g' hr => ?_
      obtain ⟨o, i, hr⟩ := connect_of_connectNamed hr
      exact (connect_eq_ok.mp hr).2
  | disconnect consumer input => exact h.disconnect hw consumer input
  | set y s => exact h.set y s
  | step poll dt => exact h.frame hg (.step poll dt)
  | tick poll now => exact h.frame hg (.tick poll now)
  | use c => exact h.use c
  | clear => exact fun m hm => nomatch hm
  | load bytes => exact steered_load x g bytes

theorem Steered.run (hg : g.Reachable) (h : Steered x seen g) (actions : List Action) :
    Steered x (lastSeen x actions g seen) (g.run actions) := by
  induction actions generalizing g seen with
  | nil => exact h
  | cons a actions ih => exact ih (hg.apply a) (h.apply hg a)

/-! ## The position -/

/-- The vector that the input for the direction shows, if it is long enough. -/
def headingOf (g : Graph) (n : Node) : Option Vec3 :=
  ((g.reading? n PathMode.directionInput).bind fun c => c.value.vector3?).filter fun v =>
    Single.epsilon.below v.length

theorem Wired.heading_eq (h : g.Wired) {n : Node} (hn : g.node? x = some n) (now : Moment) :
    (n.readings now (supplyOf g.nodes n)).heading? =
      (runNode now g x).headingOf (n.takeTurn now (supplyOf g.nodes n)).1 := by
  unfold Readings.heading? Readings.vector3? Readings.value? headingOf
  rw [h.readings_cell hn, Option.bind_map]
  rfl

/-- After every turn of a path along a direction its position is that of the parameter it reads, in
the direction of the vector that its input shows, if that is long enough.  Otherwise the path goes
by the vector that it has seen last in its mode while the edge of its input has stayed in place, and
by the third axis when there is none, as when its input has no source. -/
theorem position_after_turn (name : String) (actions : List Action) (frame : Frame) {x : NodeId}
    {m : Node} {p : Mover} (hm : (frame.apply (run actions (empty name))).node? x = some m)
    (hb : m.behavior = .path p) (hmode : p.mode = .alongVector) :
    let g := run actions (empty name)
    let k := g.inFrame frame.poll frame.read (g.ids.takeWhile (· != x) ++ [x])
    k.node? x = some m ∧ ∃ n q d, g.node? x = some n ∧ n.behavior = .path q ∧
      Shows m.ports.firstValue? (.vector3 (p.start + d.scale (k.parameterOf m))) ∧
      (∀ v, k.headingOf m = some v → d = v.normalized) ∧
      (k.headingOf m = none →
        d = Mover.course (q.retained (lastSeen x actions (empty name) none)) ∧
          (n.sourceNamed? PathMode.directionInput = none → d = Mover.defaultForward)) := by
  intro g k
  have hg : g.Reachable := ⟨name, actions, rfl⟩
  have hsteered : Steered x (lastSeen x actions (empty name) none) g :=
    Steered.run ⟨name, [], rfl⟩ (fun n hn => nomatch hn) actions
  rw [frame.apply_read] at hm
  obtain ⟨n, done, rest, hn, hids, rfl⟩ := exists_turn hg.wired.nodup hm
  have hbefore := (node?_before_turn hg.wired.nodup hids frame.poll frame.read).trans hn
  have hw : (g.inFrame frame.poll frame.read done).Wired :=
    ((hg.wired.withClock frame.read).turns _ done).1
  have hk : k = runNode ((g.withClock frame.read).moment frame.poll)
      (g.inFrame frame.poll frame.read done) x := by
    show g.inFrame _ _ (g.ids.takeWhile (· != x) ++ [x]) = _
    rw [takeWhile_ids hg.wired.nodup hids, inFrame_append]
  obtain ⟨hports, hsound⟩ := hg.standing.steady hn
  obtain ⟨q, d, hq, hshows, hd⟩ := Node.course_takeTurn hports hsound (hsteered n hn) hb hmode
  rw [hw.parameter_eq hbefore, ← hk] at hshows
  rw [hw.heading_eq hbefore, ← hk] at hd
  refine ⟨?_, n, q, d, hn, hq, hshows, hd⟩
  rw [hk, node?_runNode hbefore, if_pos rfl]

/-- A path along a vector of length one, which is then taken back to the origin. -/
def deflected : List Action :=
  [.create .value, .create .worldPos, .create .path, .set ⟨4⟩ (.pathMode .alongVector),
    .step Poll.none 0, .connect ⟨0⟩ 0 ⟨4⟩ 0, .connect ⟨2⟩ 0 ⟨4⟩ 1,
    .set ⟨2⟩ (.delta ⟨.one, .zero, .zero⟩), .step Poll.none 0,
    .set ⟨2⟩ (.delta ⟨.zero, .zero, .zero⟩)]

end Graph

end Patchbay

/-! ## With the standard engine -/

namespace Patchbay.Graph

/-- The path in the next frame: its parameter is one, and its input has a source, which shows no
vector that is long enough. -/
theorem exists_deflected :
    let g := run deflected (empty "deflected")
    let k := g.inFrame Poll.none (·.step 0) (g.ids.takeWhile (· != ⟨4⟩) ++ [⟨4⟩])
    ∃ m p, ((Frame.step Poll.none 0).apply g).node? ⟨4⟩ = some m ∧ m.behavior = .path p ∧
      p.mode = .alongVector ∧ p.start = Vec3.zero ∧ k.parameterOf m = .one ∧
      (m.sourceNamed? PathMode.directionInput).isSome = true ∧ k.headingOf m = none ∧
      m.ports.firstValue? = some (.vector3 ⟨.one, .zero, .zero⟩) := by
  intro g k
  have hfacts : (((Frame.step Poll.none 0).apply g).node? ⟨4⟩).map (fun m =>
      (m.behavior.alongFrom?, k.parameterOf m, (m.sourceNamed? PathMode.directionInput).isSome,
        k.headingOf m, m.ports.firstValue?)) =
      some (some Vec3.zero, .one, true, none, some (.vector3 ⟨.one, .zero, .zero⟩)) := by
    decide +kernel
  obtain ⟨m, hm, hfacts⟩ := Option.map_eq_some_iff.mp hfacts
  simp only [Prod.mk.injEq] at hfacts
  obtain ⟨halong, hparameter, hsource, hheading, hvalue⟩ := hfacts
  obtain ⟨p, hb, hmode, hstart⟩ := Behavior.alongFrom?_eq_some.mp halong
  exact ⟨m, p, hm, hb, hmode, hstart, hparameter, hsource, hheading, hvalue⟩

/-- The path goes on along the vector that it has seen. -/
theorem position_after_turn_of_deflected :
    let g := run deflected (empty "deflected")
    ∃ m p n q, ((Frame.step Poll.none 0).apply g).node? ⟨4⟩ = some m ∧ m.behavior = .path p ∧
      p.mode = .alongVector ∧ g.node? ⟨4⟩ = some n ∧ n.behavior = .path q ∧
      Shows m.ports.firstValue? (.vector3
        (p.start + (Mover.course (q.retained (some ⟨.one, .zero, .zero⟩))).scale .one)) := by
  intro g
  obtain ⟨m, p, hm, hb, hmode, -, hparameter, -, hheading, -⟩ := exists_deflected
  have hseen : lastSeen ⟨4⟩ deflected (empty "deflected") none = some ⟨.one, .zero, .zero⟩ := by
    decide +kernel
  obtain ⟨-, n, q, d, hn, hq, hshows, -, hd⟩ :=
    position_after_turn "deflected" deflected (.step Poll.none 0) hm hb hmode
  obtain ⟨rfl, -⟩ := hd hheading
  refine ⟨m, p, n, q, hm, hb, hmode, hn, hq, ?_⟩
  rw [← hseen, ← hparameter]
  exact hshows

/-- The input has a source that shows no vector which is long enough, and still the position is
not the one along the third axis. -/
theorem position_of_deflected :
    let g := run deflected (empty "deflected")
    let k := g.inFrame Poll.none (·.step 0) (g.ids.takeWhile (· != ⟨4⟩) ++ [⟨4⟩])
    ∃ m p, ((Frame.step Poll.none 0).apply g).node? ⟨4⟩ = some m ∧ m.behavior = .path p ∧
      p.mode = .alongVector ∧ (m.sourceNamed? PathMode.directionInput).isSome = true ∧
      k.headingOf m = none ∧ ¬Shows m.ports.firstValue?
        (.vector3 (p.start + Mover.defaultForward.scale (k.parameterOf m))) := by
  intro g k
  obtain ⟨m, p, hm, hb, hmode, hstart, hparameter, hsource, hheading, hvalue⟩ := exists_deflected
  refine ⟨m, p, hm, hb, hmode, hsource, hheading, ?_⟩
  rw [hvalue, hstart, hparameter]
  rintro ⟨o, ho, hagrees⟩
  cases ho
  rcases hagrees with hsame | hequal
  · exact absurd hsame (by decide +kernel)
  · exact absurd hequal (by decide +kernel)

end Patchbay.Graph
