import Patchbay.Frame.Turn
import Patchbay.Proofs.Ports
/-!
What a turn does to the wiring of its node.

A turn only ever takes sources away.  Each source that goes is reported, and
each that is reported was there when the turn began, so the reports tell
exactly which edges are gone.  The invariant `Turn.Keeps` says this of a turn
half done; every stage keeps it.
-/

namespace Patchbay

namespace Turn

/-- The turn `t` of a node that began with the ports `d`: what is attached now is what was
attached then and has not been reported lost. -/
structure Keeps (d : Directory) (t : Turn) : Prop where
  source_iff : ∀ i a, t.ports.source? i = some a ↔
    d.source? i = some a ∧ ∀ x ∈ t.dropped, x.address ≠ a
  dropped : ∀ x ∈ t.dropped, ∃ i, d.source? i = some x.address
  outputs : t.ports.outputs = d.outputs

theorem keeps_start (d : Directory) : Keeps d ⟨d, []⟩ where
  source_iff := by simp
  dropped := by simp
  outputs := rfl

variable {d : Directory} {t : Turn}

theorem Keeps.indexed (hd : d.Indexed) (h : Keeps d t) : t.ports.Indexed := by
  intro i a ha
  exact hd i a ((h.source_iff i a).mp ha).1

theorem Keeps.resize (hd : d.Indexed) (h : Keeps d t) (names : Option (List String)) :
    Keeps d (t.resize names) := by
  cases names with
  | none => exact h
  | some names =>
      have hlost : ∀ x ∈ Directory.lost t.ports.inputs names,
          t.ports.source? x.address.input.toNat = some x.address ∧
            names[x.address.input.toNat]? ≠ t.ports.inputNames[x.address.input.toNat]? := by
        intro x hx
        obtain ⟨i, p, hp, hn, hx⟩ := Directory.mem_lost.mp hx
        have hs : t.ports.source? i = some x.address :=
          Directory.source?_eq_some.mpr ⟨p, hp, (Directory.mem_droppedBy.mp hx).2⟩
        have hi : x.address.input.toNat = i := h.indexed hd i _ hs
        subst hi
        refine ⟨hs, ?_⟩
        rw [Directory.inputNames, List.getElem?_map, hp]
        exact hn
      refine ⟨fun i a => ?_, fun x hx => ?_, h.outputs⟩
      · show (t.ports.setInputs names).1.source? i = some a ↔
          _ ∧ ∀ x ∈ t.dropped ++ Directory.lost t.ports.inputs names, _
        rw [Directory.source?_setInputs, h.source_iff]
        constructor
        · rintro ⟨⟨hda, hkeep⟩, hname⟩
          refine ⟨hda, fun x hx => ?_⟩
          rcases List.mem_append.mp hx with hx | hx
          · exact hkeep x hx
          · rintro rfl
            have hi : x.address.input.toNat = i := hd i _ hda
            subst hi
            exact (hlost x hx).2 hname
        · rintro ⟨hda, hkeep⟩
          have hstay : ∀ x ∈ t.dropped, x.address ≠ a := fun x hx =>
            hkeep x (List.mem_append_left _ hx)
          refine ⟨⟨hda, hstay⟩, ?_⟩
          obtain ⟨p, hp, ha⟩ := Directory.source?_eq_some.mp ((h.source_iff i a).mpr ⟨hda, hstay⟩)
          rw [Directory.inputNames, List.getElem?_map, hp]
          by_cases hn : names[i]? = some p.name
          · exact hn
          · have hx : (⟨p.name, a⟩ : Dropped) ∈ Directory.lost t.ports.inputs names :=
              Directory.mem_lost.mpr ⟨i, p, hp, hn, Directory.mem_droppedBy.mpr ⟨rfl, ha⟩⟩
            exact absurd rfl (hkeep _ (List.mem_append_right _ hx))
      · rcases List.mem_append.mp hx with hx | hx
        · exact h.dropped x hx
        · exact ⟨_, ((h.source_iff _ _).mp (hlost x hx).1).1⟩

/-- A change of an input that leaves its source alone. -/
theorem Keeps.modifyInput (h : Keeps d t) {f : InputPort → InputPort}
    (hf : ∀ p, (f p).source = p.source) (i : Nat) :
    Keeps d ⟨t.ports.modifyInput i f, t.dropped⟩ where
  source_iff j a := by
    rw [Directory.source?_modifyInput_of_source hf]
    exact h.source_iff j a
  dropped := h.dropped
  outputs := h.outputs

theorem Keeps.detach (hd : d.Indexed) (h : Keeps d t) (i : Nat) : Keeps d (t.detach i) := by
  have hnew : ∀ x, x ∈ (t.ports.inputs[i]?.map Directory.droppedBy).getD [] →
      t.ports.source? i = some x.address := by
    intro x hx
    cases hp : t.ports.inputs[i]? with
    | none => simp [hp] at hx
    | some p =>
        rw [hp] at hx
        exact Directory.source?_eq_some.mpr ⟨p, hp, (Directory.mem_droppedBy.mp hx).2⟩
  refine ⟨fun j a => ?_, fun x hx => ?_, h.outputs⟩
  · show (t.ports.modifyInput i InputPort.detach).source? j = some a ↔
      _ ∧ ∀ x ∈ t.dropped ++ _, _
    rw [Directory.source?_detach]
    by_cases hij : i = j
    · subst hij
      rw [if_pos rfl]
      constructor
      · intro hnone
        exact absurd hnone (by simp)
      · rintro ⟨hda, hkeep⟩
        have hs : t.ports.source? i = some a :=
          (h.source_iff i a).mpr ⟨hda, fun x hx => hkeep x (List.mem_append_left _ hx)⟩
        obtain ⟨p, hp, ha⟩ := Directory.source?_eq_some.mp hs
        refine absurd rfl (hkeep ⟨p.name, a⟩ (List.mem_append_right _ ?_))
        rw [hp]
        exact Directory.mem_droppedBy.mpr ⟨rfl, ha⟩
    · rw [if_neg hij, h.source_iff]
      constructor
      · rintro ⟨hda, hkeep⟩
        refine ⟨hda, fun x hx => ?_⟩
        rcases List.mem_append.mp hx with hx | hx
        · exact hkeep x hx
        · rintro rfl
          have hsi := h.indexed hd i _ (hnew x hx)
          exact hij (hsi.symm.trans (hd j _ hda))
      · rintro ⟨hda, hkeep⟩
        exact ⟨hda, fun x hx => hkeep x (List.mem_append_left _ hx)⟩
  · rcases List.mem_append.mp hx with hx | hx
    · exact h.dropped x hx
    · exact ⟨i, ((h.source_iff i _).mp (hnew x hx)).1⟩

theorem Keeps.hold (hd : d.Indexed) (h : Keeps d t) (supply : Supply) (gate : Gate) :
    Keeps d (t.hold supply gate) := by
  unfold Turn.hold
  cases t.ports.inputIndex? gate.input with
  | none => exact h
  | some i =>
      have hnoted := h.modifyInput
        (show ∀ p : InputPort, ({ p with accepted := gate.kinds } : InputPort).source = p.source
          from fun _ => rfl) i
      simp only
      split
      · exact hnoted.detach hd i
      · exact hnoted

theorem Keeps.holdAll (hd : d.Indexed) (h : Keeps d t) (supply : Supply) (gates : List Gate) :
    Keeps d (t.holdAll supply gates) := by
  unfold Turn.holdAll
  induction gates generalizing t with
  | nil => exact h
  | cons gate gates ih => exact ih (h.hold hd supply gate)

/-! ## Names -/

theorem inputNames_detach (t : Turn) (i : Nat) :
    (t.detach i).ports.inputNames = t.ports.inputNames :=
  t.ports.inputNames_detach i

theorem inputNames_hold (supply : Supply) (gate : Gate) (t : Turn) :
    (t.hold supply gate).ports.inputNames = t.ports.inputNames := by
  unfold Turn.hold
  cases t.ports.inputIndex? gate.input with
  | none => rfl
  | some i =>
      simp only
      split
      · rw [inputNames_detach]
        exact Directory.inputNames_modifyInput fun _ => rfl
      · exact Directory.inputNames_modifyInput fun _ => rfl

theorem inputNames_holdAll (supply : Supply) (gates : List Gate) (t : Turn) :
    (t.holdAll supply gates).ports.inputNames = t.ports.inputNames := by
  unfold Turn.holdAll
  induction gates generalizing t with
  | nil => rfl
  | cons gate gates ih => rw [List.foldl_cons, ih, inputNames_hold]

end Turn

/-! ## Behaviors keep their type -/

variable [Formula.Engine]

namespace Behavior

theorem type_finish (now : Moment) (id : NodeId) (b : Behavior) (r : Readings) :
    ((b.plan now id).finish r).1.type = b.type := by
  cases b <;> rfl

theorem type_connected (input : String) (p : ProducerInfo) (b : Behavior) :
    (b.connected input p).type = b.type := by
  cases b <;> rfl

theorem type_disconnected (input : String) (b : Behavior) :
    (b.disconnected input).type = b.type := by
  cases b <;> rfl

/-- Takes notice of lost sources one after the other. -/
def disconnectedAll (lost : List Dropped) (b : Behavior) : Behavior :=
  lost.foldl (fun b d => b.disconnected d.name) b

theorem type_disconnectedAll (lost : List Dropped) (b : Behavior) :
    (b.disconnectedAll lost).type = b.type := by
  unfold disconnectedAll
  induction lost generalizing b with
  | nil => rfl
  | cons d lost ih => rw [List.foldl_cons, ih, type_disconnected]

end Behavior

/-! ## The parts of a turn -/

namespace Node

variable (now : Moment) (supply : Supply) (n : Node)

/-- The plan of a node for its turn. -/
def plan : Plan Behavior := n.behavior.plan now n.id

/-- The turn when the inputs have been replaced. -/
def resizedTurn : Turn := Turn.resize (n.plan now).inputs ⟨n.ports.clearDirty, []⟩

/-- The turn when the gates have been held. -/
def heldTurn : Turn := (n.resizedTurn now).holdAll supply (n.plan now).gates

/-- What the node reads when its gates have been held. -/
def readings : Readings := Readings.ofTurn supply (n.resizedTurn now) (n.heldTurn now supply)

/-- The state and the posts in which the turn ends. -/
def outcome : Behavior × List Post := (n.plan now).finish (n.readings now supply)

theorem foldl_disconnected (lost : List Dropped) (n : Node) :
    lost.foldl (fun n d => n.disconnected d.name) n =
      { n with behavior := n.behavior.disconnectedAll lost } := by
  induction lost generalizing n with
  | nil => rfl
  | cons d lost ih => rw [List.foldl_cons, ih]; rfl

/-- A turn changes nothing of a node but its ports and its behavior. -/
theorem takeTurn_node :
    (n.takeTurn now supply).1 =
      { n with
        ports := (n.outcome now supply).2.foldl Directory.post (n.heldTurn now supply).ports
        behavior := (n.outcome now supply).1.disconnectedAll (n.heldTurn now supply).dropped } :=
  foldl_disconnected _ _

theorem takeTurn_id : (n.takeTurn now supply).1.id = n.id := by
  rw [takeTurn_node]

theorem takeTurn_name : (n.takeTurn now supply).1.name = n.name := by
  rw [takeTurn_node]

theorem takeTurn_priority : (n.takeTurn now supply).1.priority = n.priority := by
  rw [takeTurn_node]

theorem takeTurn_type : (n.takeTurn now supply).1.type = n.type := by
  rw [takeTurn_node]
  exact (Behavior.type_disconnectedAll _ _).trans (Behavior.type_finish now n.id n.behavior _)

theorem takeTurn_inputs :
    (n.takeTurn now supply).1.ports.inputs = (n.heldTurn now supply).ports.inputs := by
  rw [takeTurn_node]
  exact Directory.inputs_posts _ _

theorem inputNames_resizedTurn :
    (n.resizedTurn now).ports.inputNames = (n.plan now).inputs.getD n.ports.inputNames := by
  unfold resizedTurn
  cases (n.plan now).inputs with
  | none => rfl
  | some names => exact Directory.inputNames_setInputs n.ports.clearDirty names

/-- After a turn the inputs have the names that the plan asks for, or keep their own. -/
theorem takeTurn_inputNames :
    (n.takeTurn now supply).1.ports.inputNames =
      (n.plan now).inputs.getD n.ports.inputNames := by
  have hheld := Turn.inputNames_holdAll supply (n.plan now).gates (n.resizedTurn now)
  exact (congrArg (List.map InputPort.name) (takeTurn_inputs now supply n)).trans
    (hheld.trans (n.inputNames_resizedTurn now))

variable {n}

theorem heldTurn_keeps (hn : n.ports.Indexed) :
    (n.heldTurn now supply).Keeps n.ports.clearDirty := by
  have hd : n.ports.clearDirty.Indexed := hn
  exact ((Turn.keeps_start n.ports.clearDirty).resize hd _).holdAll hd supply _

/-- After a turn those sources are left that are not reported lost. -/
theorem takeTurn_source_iff (hn : n.ports.Indexed) (i : Nat) (a : Address) :
    (n.takeTurn now supply).1.ports.source? i = some a ↔
      n.ports.source? i = some a ∧ ∀ x ∈ (n.takeTurn now supply).2, x.address ≠ a := by
  rw [Directory.source?_congr (takeTurn_inputs now supply n)]
  exact (heldTurn_keeps now supply hn).source_iff i a

theorem takeTurn_outputNames (hn : n.ports.Indexed) :
    (n.takeTurn now supply).1.ports.outputNames = n.ports.outputNames := by
  rw [takeTurn_node]
  calc _ = (n.heldTurn now supply).ports.outputNames := Directory.outputNames_posts _ _
    _ = n.ports.clearDirty.outputNames := by
      rw [Directory.outputNames, (heldTurn_keeps now supply hn).outputs]
      rfl
    _ = n.ports.outputNames := Directory.outputNames_clearDirty _

end Node

end Patchbay
