import Patchbay.Proofs.Lists
/-!
What the gates of a plan do to the inputs.

A gate is held against the input of its name and against no other one: it
notes which kinds the input takes, and an input that is supplied with
another kind loses its source.  When a plan has one gate for each input the
ports after the turn can be read off the ports before, place by place.  That
it has is a matter between the state of a node and its ports
(`Node.Fits`): both are resized together, so they agree at all times but
while an edit of a list waits.
-/

namespace Patchbay

/-- What a gate leaves of its input, given what the input is supplied with. -/
def Gate.applied (gate : Gate) (supplied : Option Cell) (p : InputPort) : InputPort :=
  let noted : InputPort := { p with accepted := gate.kinds }
  if supplied.any fun c => !gate.kinds.contains c.kind then noted.detach else noted

theorem Gate.name_applied (gate : Gate) (supplied : Option Cell) (p : InputPort) :
    (gate.applied supplied p).name = p.name := by
  simp only [applied]
  split
  · rfl
  · rfl

theorem Gate.accepted_applied (gate : Gate) (supplied : Option Cell) (p : InputPort) :
    (gate.applied supplied p).accepted = gate.kinds := by
  simp only [applied]
  split
  · rfl
  · rfl

theorem Gate.source_applied {gate : Gate} {supplied : Option Cell} {p : InputPort} {a : Address} :
    (gate.applied supplied p).source = some a ↔
      p.source = some a ∧ ∀ c, supplied = some c → gate.kinds.contains c.kind = true := by
  simp only [applied]
  cases supplied with
  | none => simp
  | some c =>
      by_cases h : gate.kinds.contains c.kind = true
      · simp [h]
      · simp [h, InputPort.detach]

/-- Where the inputs of gates differ a gate is found under its input. -/
theorem Gate.find?_of_nodup {gates : List Gate} (h : (gates.map Gate.input).Nodup) {gate : Gate}
    (hgate : gate ∈ gates) : gates.find? (·.input == gate.input) = some gate := by
  induction gates with
  | nil => exact nomatch hgate
  | cons first rest ih =>
      rw [List.map_cons, List.nodup_cons] at h
      rcases List.mem_cons.mp hgate with rfl | hrest
      · exact List.find?_cons_of_pos (by simp)
      · have hne : first.input ≠ gate.input := fun heq => h.1 (heq ▸ List.mem_map_of_mem hrest)
        rw [List.find?_cons_of_neg (by simpa using hne)]
        exact ih h.2 hrest

/-! ## Inputs by name -/

namespace Directory

/-- Where names differ an input is found under its name. -/
theorem inputIndex?_of_nodup {d : Directory} (hd : d.inputNames.Nodup) {i : Nat} {p : InputPort}
    (hp : d.inputs[i]? = some p) : d.inputIndex? p.name = some i := by
  obtain ⟨hi, rfl⟩ := List.getElem?_eq_some_iff.mp hp
  refine List.findIdx?_eq_some_iff_getElem.mpr ⟨hi, by simp, fun j hj hname => ?_⟩
  have hsame : d.inputs[j].name = d.inputs[i].name := by simpa using hname
  have hdiffer := List.pairwise_iff_getElem.mp hd j i (by simp [inputNames]; omega)
    (by simpa [inputNames] using hi) hj
  exact hdiffer (by simpa [inputNames] using hsame)

end Directory

namespace Supply

/-- What an input is supplied with depends on whether it has a source. -/
theorem at?_congr (supply : Supply) {d d' : Directory} {i : Nat}
    (h : d'.inputs[i]? = d.inputs[i]?) : supply.at? d' i = supply.at? d i := by
  rw [at?, at?, h]

end Supply

/-! ## Holding gates -/

namespace Turn

variable {supply : Supply} {t : Turn} {i : Nat} {p : InputPort}

theorem getElem?_detach_of_ne {j : Nat} (h : i ≠ j) :
    (t.detach i).ports.inputs[j]? = t.ports.inputs[j]? := by
  simp [detach, Directory.modifyInput, h]

/-- A gate is held against the input of its name. -/
theorem getElem?_hold (ht : t.ports.inputNames.Nodup) (hp : t.ports.inputs[i]? = some p)
    (gate : Gate) :
    (t.hold supply gate).ports.inputs[i]? =
      some (if p.name = gate.input then gate.applied (supply.at? t.ports i) p else p) := by
  unfold hold
  by_cases hname : p.name = gate.input
  · rw [if_pos hname, ← hname, Directory.inputIndex?_of_nodup ht hp]
    simp only [Option.any_map, Gate.applied]
    split
    · simp [detach, Directory.modifyInput, hp]
    · simp [Directory.modifyInput, hp]
  · rw [if_neg hname]
    cases hj : t.ports.inputIndex? gate.input with
    | none => exact hp
    | some j =>
        have hne : j ≠ i := by
          rintro rfl
          obtain ⟨q, hq, hqname⟩ := Directory.name_of_inputIndex? hj
          rw [hp] at hq
          cases hq
          exact hname hqname
        simp only
        split
        · rw [getElem?_detach_of_ne hne]
          simp [Directory.modifyInput, hne, hp]
        · simp [Directory.modifyInput, hne, hp]

/-- Of several gates an input meets the one of its name. -/
theorem getElem?_holdAll {gates : List Gate} (hgates : (gates.map Gate.input).Nodup)
    (ht : t.ports.inputNames.Nodup) (hp : t.ports.inputs[i]? = some p) :
    (t.holdAll supply gates).ports.inputs[i]? =
      some (match gates.find? (·.input == p.name) with
        | some gate => gate.applied (supply.at? t.ports i) p
        | none => p) := by
  induction gates generalizing t p with
  | nil => exact hp
  | cons gate gates ih =>
      rw [List.map_cons, List.nodup_cons] at hgates
      have hnames : (t.hold supply gate).ports.inputNames.Nodup := by
        rw [inputNames_hold]
        exact ht
      have hnext : (t.hold supply gate).ports.inputs[i]? = _ := getElem?_hold ht hp gate
      have hrest := ih hgates.2 hnames hnext
      change ((t.hold supply gate).holdAll supply gates).ports.inputs[i]? = _
      by_cases hname : p.name = gate.input
      · -- No other gate has this name.
        rw [if_pos hname] at hrest
        have hnone : gates.find? (·.input == p.name) = none := by
          rw [List.find?_eq_none]
          intro other hother heq
          have hinput : other.input = gate.input := (by simpa using heq : other.input = p.name).trans hname
          exact hgates.1 (hinput ▸ List.mem_map_of_mem hother)
        rw [Gate.name_applied, hnone] at hrest
        rw [List.find?_cons_of_pos (by simp [hname])]
        exact hrest
      · rw [if_neg hname] at hnext hrest
        rw [List.find?_cons_of_neg (by simpa using Ne.symm hname)]
        rw [supply.at?_congr (hnext.trans hp.symm)] at hrest
        exact hrest

/-- When there is one gate for each input, each input meets the gate at its place. -/
theorem getElem?_holdAll_of_names {gates : List Gate}
    (hgates : gates.map Gate.input = t.ports.inputNames) (ht : t.ports.inputNames.Nodup)
    (hp : t.ports.inputs[i]? = some p) :
    ∃ gate, gates[i]? = some gate ∧ gate.input = p.name ∧
      (t.holdAll supply gates).ports.inputs[i]? =
        some (gate.applied (supply.at? t.ports i) p) := by
  have hname : (gates.map Gate.input)[i]? = some p.name := by
    rw [hgates, Directory.inputNames, List.getElem?_map, hp]
    rfl
  rw [List.getElem?_map, Option.map_eq_some_iff] at hname
  obtain ⟨gate, hgate, hinput⟩ := hname
  refine ⟨gate, hgate, hinput, ?_⟩
  have hnodup : (gates.map Gate.input).Nodup := hgates ▸ ht
  rw [getElem?_holdAll hnodup ht hp]
  have hfind := Gate.find?_of_nodup hnodup (List.mem_of_getElem? hgate)
  rw [hinput] at hfind
  rw [hfind]

end Turn

/-! ## What is read under a name -/

theorem Supply.at?_of_source (supply : Supply) {d d' : Directory} {i : Nat}
    (h : d'.source? i = d.source? i) : supply.at? d' i = supply.at? d i := by
  rw [at?, at?, Directory.isConnected_eq, Directory.isConnected_eq, h]

theorem Supply.at?_detach (supply : Supply) (d : Directory) (i : Nat) :
    supply.at? (d.modifyInput i InputPort.detach) i = none := by
  rw [at?, Directory.isConnected_eq, Directory.source?_detach, if_pos rfl]
  rfl

namespace Turn

variable {supply : Supply} {t : Turn} {gate : Gate} {gates : List Gate}

/-- A gate lets through what its input reads, if the kind is one that it takes. -/
theorem at?_hold (i : Nat) :
    supply.at? (t.hold supply gate).ports i =
      if t.ports.inputIndex? gate.input = some i then
        (supply.at? t.ports i).filter fun c => gate.kinds.contains c.kind
      else supply.at? t.ports i := by
  unfold hold
  cases hj : t.ports.inputIndex? gate.input with
  | none => simp
  | some j =>
      have hnoted : supply.at? (t.ports.modifyInput j fun p => { p with accepted := gate.kinds }) i =
          supply.at? t.ports i := by
        refine supply.at?_of_source (Directory.source?_modifyInput_of_source ?_ i)
        exact fun _ => rfl
      by_cases hij : j = i
      · subst hij
        rw [if_pos rfl]
        cases hc : supply.at? t.ports j with
        | none => simpa [hc] using hnoted
        | some c =>
            by_cases hkind : gate.kinds.contains c.kind = true
            · simpa [hkind, hc, Option.filter_some] using hnoted
            · have hnone := supply.at?_detach
                (t.ports.modifyInput j fun p => { p with accepted := gate.kinds }) j
              simpa [hkind, hc, detach, Option.filter_some] using hnone
      · rw [if_neg (by simpa using hij)]
        simp only
        split
        · refine Eq.trans (supply.at?_of_source ?_) hnoted
          exact (Directory.source?_detach _ j i).trans (if_neg hij)
        · exact hnoted

theorem named?_hold (name : String) :
    supply.named? (t.hold supply gate).ports name =
      if name = gate.input then
        (supply.named? t.ports name).filter fun c => gate.kinds.contains c.kind
      else supply.named? t.ports name := by
  unfold Supply.named?
  rw [Directory.inputIndex?_congr (inputNames_hold supply gate t)]
  cases hi : t.ports.inputIndex? name with
  | none => simp
  | some i =>
      rw [Option.bind_some, Option.bind_some, at?_hold]
      by_cases hname : name = gate.input
      · rw [if_pos hname, if_pos (hname ▸ hi)]
      · rw [if_neg hname, if_neg]
        intro hgate
        obtain ⟨p, hp, hpname⟩ := Directory.name_of_inputIndex? hi
        obtain ⟨q, hq, hqname⟩ := Directory.name_of_inputIndex? hgate
        rw [hp] at hq
        cases hq
        exact hname (hpname.symm.trans hqname)

theorem named?_of_holdAll {name : String} {c : Cell}
    (h : supply.named? (t.holdAll supply gates).ports name = some c) :
    supply.named? t.ports name = some c := by
  induction gates generalizing t with
  | nil => exact h
  | cons gate gates ih =>
      have hfirst : supply.named? (t.hold supply gate).ports name = some c := ih h
      rw [named?_hold] at hfirst
      split at hfirst
      · exact (Option.filter_eq_some_iff.mp hfirst).1
      · exact hfirst

/-- What is read under the name of a gate is of a kind that the gate takes. -/
theorem contains_of_named?_holdAll (hgate : gate ∈ gates) {c : Cell}
    (h : supply.named? (t.holdAll supply gates).ports gate.input = some c) :
    gate.kinds.contains c.kind = true := by
  induction gates generalizing t with
  | nil => exact nomatch hgate
  | cons first gates ih =>
      rcases List.mem_cons.mp hgate with rfl | hgate
      · have hfirst : supply.named? (t.hold supply gate).ports gate.input = some c :=
          named?_of_holdAll h
        rw [named?_hold, if_pos rfl] at hfirst
        simpa using (Option.filter_eq_some_iff.mp hfirst).2
      · exact ih hgate h

/-- A gate gives no input a source. -/
theorem source?_of_hold {i : Nat} {a : Address}
    (h : (t.hold supply gate).ports.source? i = some a) : t.ports.source? i = some a := by
  unfold hold at h
  cases hj : t.ports.inputIndex? gate.input with
  | none =>
      rw [hj] at h
      exact h
  | some j =>
      have hnoted : (t.ports.modifyInput j fun p => { p with accepted := gate.kinds }).source? i =
          t.ports.source? i := by
        refine Directory.source?_modifyInput_of_source ?_ i
        exact fun _ => rfl
      rw [← hnoted]
      simp only [hj] at h
      split at h
      · have hdetach := Directory.source?_detach
          (t.ports.modifyInput j fun p => { p with accepted := gate.kinds }) j i
        replace h := hdetach.symm.trans h
        split at h
        · exact nomatch h
        · exact h
      · exact h

/-- A source that a gate takes away was at the input of its name. -/
theorem mem_dropped_hold {x : Dropped} (h : x ∈ (t.hold supply gate).dropped) :
    x ∈ t.dropped ∨ x.name = gate.input ∧
      ∃ i, t.ports.inputNames[i]? = some x.name ∧ t.ports.source? i = some x.address := by
  unfold hold at h
  cases hj : t.ports.inputIndex? gate.input with
  | none =>
      rw [hj] at h
      exact Or.inl h
  | some j =>
      obtain ⟨p, hp, hname⟩ := Directory.name_of_inputIndex? hj
      simp only [hj] at h
      split at h
      · rcases List.mem_append.mp h with h | h
        · exact Or.inl h
        · simp only [Directory.modifyInput, List.getElem?_modify_eq, hp, Option.map_eq_map,
            Option.map_some, Option.getD_some] at h
          obtain ⟨hx, hsource⟩ := Directory.mem_droppedBy.mp h
          refine Or.inr ⟨hx.trans hname, j, ?_, Directory.source?_eq_some.mpr ⟨p, hp, hsource⟩⟩
          rw [Directory.inputNames, List.getElem?_map, hp, hx]
          rfl
      · exact Or.inl h

/-- A source that gates take away was at an input of the name of one of them. -/
theorem mem_dropped_holdAll {x : Dropped} (h : x ∈ (t.holdAll supply gates).dropped) :
    x ∈ t.dropped ∨ x.name ∈ gates.map Gate.input ∧
      ∃ i, t.ports.inputNames[i]? = some x.name ∧ t.ports.source? i = some x.address := by
  induction gates generalizing t with
  | nil => exact Or.inl h
  | cons gate gates ih =>
      rcases ih h with hx | ⟨hx, i, hname, hsource⟩
      · rcases mem_dropped_hold hx with hx | ⟨hx, hplace⟩
        · exact Or.inl hx
        · exact Or.inr ⟨hx ▸ List.mem_cons_self, hplace⟩
      · rw [inputNames_hold] at hname
        exact Or.inr ⟨List.mem_cons_of_mem _ hx, i, hname, source?_of_hold hsource⟩

end Turn

theorem NodeType.nodup_inputNames (t : NodeType) : t.inputNames.Nodup := by
  cases t <;> decide

/-! ## The names of the variables of a list -/

/-- Names that can be inputs beside the sizes of a list: each once, and none of them reserved. -/
def Generator.Admissible (names : List String) : Prop :=
  names.Nodup ∧ ∀ name ∈ names, name ∉ Generator.reservedNames

namespace Generator

theorem not_mem_of_mem_admissible {seen names : List String} {name : String}
    (h : name ∈ admissible seen names) : name ∉ reservedNames ∧ name ∉ seen := by
  induction names generalizing seen with
  | nil => exact nomatch h
  | cons first rest ih =>
      unfold admissible at h
      split at h
      · exact ih h
      · next hfree =>
          simp only [Bool.or_eq_true, List.contains_iff_mem, not_or] at hfree
          rcases List.mem_cons.mp h with rfl | h
          · exact hfree
          · obtain ⟨hreserved, hseen⟩ := ih h
            exact ⟨hreserved, fun hmem => hseen (List.mem_cons_of_mem first hmem)⟩

theorem nodup_admissible (seen names : List String) : (admissible seen names).Nodup := by
  induction names generalizing seen with
  | nil => exact List.nodup_nil
  | cons first rest ih =>
      unfold admissible
      split
      · exact ih seen
      · refine List.nodup_cons.mpr ⟨fun hmem => ?_, ih (first :: seen)⟩
        exact (not_mem_of_mem_admissible hmem).2 List.mem_cons_self

theorem admissible_declaredNames (text : String) : Admissible (declaredNames text) :=
  ⟨nodup_admissible [] _, fun _ h => (not_mem_of_mem_admissible h).1⟩

variable [Formula.Engine]

/-- The variables of a list have names that can be inputs. -/
def Named (g : Generator) : Prop := Admissible g.variableNames

theorem durable_named : Durable Named where
  element _ h := h
  dimension _ h := h
  names _ h := h
  expression {s} component source h := by
    rcases s.setExpression_cases component source with hs | ⟨sources, hs⟩
    · rw [hs]
      exact h
    · rw [hs]
      exact h

/-- The inputs of a list differ, whatever its dimension. -/
theorem nodup_inputNames {g : Generator} (h : g.Named) : g.inputNames.Nodup := by
  unfold inputNames sizeNames
  have hsizes : (sizeInputs.take g.dimension.count).Nodup := by
    cases g.dimension <;> decide
  refine List.nodup_append.mpr ⟨hsizes, h.1, fun size hsize name hname heq => ?_⟩
  subst heq
  have hreserved : size ∈ reservedNames := by
    have hmem : size ∈ sizeInputs := List.mem_of_mem_take hsize
    unfold reservedNames
    simp only [List.mem_cons]
    exact Or.inr (Or.inr (Or.inr (Or.inr hmem)))
  exact h.2 size hname hreserved

end Generator

/-! ## What a state knows of its inputs -/

variable [Formula.Engine]

namespace Behavior

/-- The inputs that a state counts on; a list counts on none while an edit of them waits. -/
def counted? : Behavior → Option (List String)
  | function s => some (Evaluator.inputNames s.arity)
  | list s => if s.portsStale then none else some s.inputNames
  | camera s => some s.mode.inputNames
  | path s => some s.mode.inputNames
  | b => some b.type.inputNames

/-- Whether the turn is one in which a formula of a list does not compile. -/
def stalls : Behavior → Bool
  | list s => !s.resized.recompiled.2
  | _ => false

theorem counted?_connected (input : String) (p : ProducerInfo) (b : Behavior) :
    (b.connected input p).counted? = b.counted? := by
  cases b with
  | path s => exact congrArg (fun m => some (PathMode.inputNames m)) (s.mode_connected input)
  | _ => rfl

theorem counted?_disconnected (input : String) (b : Behavior) :
    (b.disconnected input).counted? = b.counted? := by
  cases b with
  | path s => exact congrArg (fun m => some (PathMode.inputNames m)) (s.mode_disconnected input)
  | _ => rfl

theorem counted?_disconnectedAll (lost : List Dropped) (b : Behavior) :
    (b.disconnectedAll lost).counted? = b.counted? := by
  unfold disconnectedAll
  induction lost generalizing b with
  | nil => rfl
  | cons d lost ih => rw [List.foldl_cons, ih, counted?_disconnected]

/-- A setting leaves the inputs alone until the next turn. -/
theorem counted?_set {s : Setting} {b : Behavior} {names : List String}
    (h : (s.onBehavior b).counted? = some names) : b.counted? = some names := by
  cases b with
  | list g =>
      cases s with
      | dimension r => exact nomatch h
      | listVariables names => exact nomatch h
      | componentFormula i source =>
          change (list (g.setExpression i source)).counted? = some names at h
          rcases g.setExpression_cases i source with hs | ⟨sources, hs⟩
          · rw [hs] at h
            exact h
          · rw [hs] at h
            exact h
      | _ => exact h
  | _ => cases s <;> exact h

end Behavior

/-! ## Plans and states -/

namespace Generator

variable {g : Generator} {r : Readings}

theorem plan_inputs (g : Generator) :
    g.plan.inputs = if g.portsStale then some g.resized.inputNames else none := by
  unfold plan
  rcases g.recompiled_cases with ⟨next, hnext, -⟩ | ⟨e, slots, -, -, hnext⟩
  · simp only [hnext]
  · simp only [hnext]

theorem input_gates (g : Generator) : g.gates.map Gate.input = g.inputNames := by
  simp [gates, inputNames, Function.comp_def]

/-- After a turn the inputs have been taken over. -/
theorem Turned.inputs {next : Generator} {posts : List Post} (h : g.Turned r next posts) :
    next.portsStale = false ∧ next.variableNames = g.resized.variableNames ∧
      next.inputNames = g.resized.inputNames := by
  have hresized : g.resized.dimension = g.dimension := by rw [resized_eq]
  have hready : ∀ {k : Generator}, g.Ready k → k.inputNames = g.resized.inputNames := by
    intro k hk
    rw [inputNames, sizeNames, hk.dimension, hk.variableNames, ← hresized]
    rfl
  cases h with
  | broken _ _ => exact ⟨g.portsStale_resized, rfl, rfl⟩
  | unsized hk _ =>
      have hnames := hready hk
      exact ⟨hk.portsStale, hk.variableNames, hnames⟩
  | reused _ hreuse =>
      have hports : g.portsStale = false := by
        simp only [reuses, Bool.and_eq_true, Bool.not_eq_true'] at hreuse
        exact hreuse.1.1
      rw [resized_of_fresh hports]
      exact ⟨hports, rfl, rfl⟩
  | produced hk _ _ _ =>
      have hnames := hready hk
      exact ⟨hk.portsStale, hk.variableNames, hnames⟩
  | failed hk _ _ _ =>
      have hnames := hready hk
      exact ⟨hk.portsStale, hk.variableNames, hnames⟩

theorem Named.resized (h : g.Named) : g.resized.Named := by
  unfold Generator.resized
  split
  · exact admissible_declaredNames g.extraNames
  · exact h

theorem Turned.named {next : Generator} {posts : List Post} (h : g.Turned r next posts)
    (hg : g.Named) : next.Named := by
  unfold Named
  rw [h.inputs.2.1]
  exact hg.resized

/-- When all formulas compile there is a gate for each input. -/
theorem input_gates_plan (h : g.resized.recompiled.2 = true) :
    g.plan.gates.map Gate.input = g.resized.inputNames := by
  unfold plan
  rcases g.recompiled_cases with ⟨next, hnext, hready⟩ | ⟨e, slots, -, -, hnext⟩
  · simp only [hnext]
    have hdimension : next.dimension = g.resized.dimension := by
      rw [hready.dimension, resized_eq]
    rw [input_gates, inputNames, sizeNames, hdimension, hready.variableNames]
    rfl
  · rw [hnext] at h
    exact nomatch h

end Generator

theorem Evaluator.arity_recompiled (e : Evaluator) : e.recompiled.arity = e.arity := by
  unfold recompiled
  cases e.pendingSource with
  | none => rfl
  | some source =>
      simp only
      split
      · rfl
      · rfl

theorem Evaluator.arity_finish (e : Evaluator) (r : Readings) : (e.finish r).1.arity = e.arity := by
  unfold finish
  split
  · rfl
  · split
    · rfl
    · rfl

namespace Behavior

variable {b : Behavior} (now : Moment) (id : NodeId)

/-- After a turn the state counts on the inputs that the plan asks for, or else on those it
counted on before. -/
theorem counted?_finish {names : List String} (h : ∀ old, b.counted? = some old → names = old)
    (r : Readings) :
    ((b.plan now id).finish r).1.counted? = some ((b.plan now id).inputs.getD names) := by
  cases b with
  | function s =>
      obtain rfl := h _ rfl
      show some (Evaluator.inputNames (s.resized.recompiled.finish r).1.arity) = some _
      rw [Evaluator.arity_finish, Evaluator.arity_recompiled]
      show some (Evaluator.inputNames (s.pendingArity.getD s.arity)) =
        some ((s.pendingArity.map Evaluator.inputNames).getD _)
      cases s.pendingArity with
      | none => rfl
      | some arity => rfl
  | list s =>
      obtain ⟨hports, -, hnames⟩ := (s.turned r).inputs
      have hcounted : ((Behavior.list s).plan now id |>.finish r).1.counted? =
          some (s.plan.finish r).1.inputNames := by
        show (if (s.plan.finish r).1.portsStale then none else some _) = _
        rw [hports]
        rfl
      rw [hcounted, hnames]
      show _ = some (s.plan.inputs.getD names)
      rw [s.plan_inputs]
      cases hstale : s.portsStale with
      | true => rfl
      | false =>
          rw [Generator.resized_of_fresh hstale]
          exact congrArg some (h _ (by simp [counted?, hstale])).symm
  | camera s =>
      obtain rfl := h _ rfl
      show some s.switched.mode.inputNames =
        some ((if s.switched.mode = s.mode then none else some s.switched.mode.inputNames).getD _)
      split
      · next hmode => rw [hmode]; rfl
      · rfl
  | path s =>
      obtain rfl := h _ rfl
      show some (s.switched.finish r).1.mode.inputNames =
        some ((if s.switched.mode = s.mode then none else some s.switched.mode.inputNames).getD _)
      rw [Mover.mode_finish]
      split
      · next hmode => rw [hmode]; rfl
      · rfl
  | value s =>
      obtain rfl := h _ rfl
      show some _ = some (s.plan.inputs.getD _)
      unfold Constant.plan
      split
      · rfl
      · rfl
  | _ =>
      obtain rfl := h _ rfl
      rfl

/-- A turn that does not stall has a gate for each input of its state. -/
theorem input_gates_plan (h : b.stalls = false) (r : Readings) :
    some ((b.plan now id).gates.map Gate.input) = ((b.plan now id).finish r).1.counted? := by
  cases b with
  | function s =>
      show some (((Evaluator.inputNames s.resized.recompiled.arity).map _).map Gate.input) =
        some (Evaluator.inputNames (s.resized.recompiled.finish r).1.arity)
      rw [Evaluator.arity_finish, List.map_map]
      simp [Function.comp_def]
  | list s =>
      have hready : s.resized.recompiled.2 = true := by simpa [stalls] using h
      obtain ⟨hports, -, hnames⟩ := (s.turned r).inputs
      show some (s.plan.gates.map Gate.input) =
        if (s.plan.finish r).1.portsStale then none else some (s.plan.finish r).1.inputNames
      rw [hports, hnames, Generator.input_gates_plan hready]
      rfl
  | camera s => rfl
  | path s =>
      show some (s.switched.mode.gates.map Gate.input) =
        some (s.switched.finish r).1.mode.inputNames
      rw [Mover.mode_finish]
      rfl
  | value s =>
      show some (s.plan.gates.map Gate.input) = some []
      unfold Constant.plan
      split
      · rfl
      · rfl
  | _ => rfl

/-- The inputs that a state counts on differ. -/
theorem nodup_counted? (h : b.OfList Generator.Named) {names : List String}
    (hnames : b.counted? = some names) : names.Nodup := by
  cases b with
  | function s =>
      cases hnames
      cases s.arity <;> decide
  | list s =>
      change (if s.portsStale then none else some s.inputNames) = some names at hnames
      split at hnames
      · exact nomatch hnames
      · cases hnames
        exact Generator.nodup_inputNames h
  | camera s =>
      cases hnames
      cases s.mode <;> decide
  | path s =>
      cases hnames
      cases s.mode <;> decide
  | _ =>
      cases hnames
      exact NodeType.nodup_inputNames _

end Behavior

/-! ## Nodes -/

/-- The ports of a node have the names that its state counts on. -/
structure Node.Fits (n : Node) : Prop where
  names : ∀ names, n.behavior.counted? = some names → n.ports.inputNames = names
  named : n.OfList fun _ => Generator.Named

namespace Node

variable {n : Node}

theorem named_durable : Durable (OfList fun _ => Generator.Named) :=
  durable_ofList fun _ => Generator.durable_named

theorem fits_detach (h : n.Fits) (i : Nat) : (n.detach i).Fits := by
  refine ⟨fun names hcounted => ?_, named_durable.detach i h.named⟩
  rw [n.inputNames_detach]
  refine h.names names ?_
  unfold detach at hcounted
  cases hp : n.ports.inputs[i]? with
  | none =>
      rw [hp] at hcounted
      exact hcounted
  | some p =>
      rw [hp] at hcounted
      exact (Behavior.counted?_disconnected p.name n.behavior).symm.trans hcounted

theorem fits_attached (h : n.Fits) (e : Edge) (source : Node) (o : OutputPort) (i : InputPort) :
    (Graph.attachedNode e source o i n).Fits := by
  refine ⟨fun names hcounted => ?_, named_durable.attach e source o i h.named⟩
  rw [Graph.inputNames_attachedNode]
  rw [Graph.attachedNode_eq, Behavior.counted?_connected] at hcounted
  refine h.names names ?_
  split at hcounted
  · exact (Behavior.counted?_disconnected _ _).symm.trans hcounted
  · exact hcounted

theorem fits_set (h : n.Fits) (s : Setting) : (s.onNode n).Fits := by
  refine ⟨fun names hcounted => ?_, named_durable.set s h.named⟩
  rw [s.ports_onNode]
  refine h.names names ?_
  rcases s.onNode_cases n with ⟨_, _, hs⟩ | ⟨_, hs⟩ | hs
  · rw [hs] at hcounted
    exact hcounted
  · rw [hs] at hcounted
    exact hcounted
  · rw [hs] at hcounted
    exact Behavior.counted?_set hcounted

section Turns
variable (now : Moment) (supply : Supply)

/-- After a turn the state counts on the inputs that are there. -/
theorem counted?_takeTurn (h : n.Fits) :
    (n.takeTurn now supply).1.behavior.counted? =
      some ((n.plan now).inputs.getD n.ports.inputNames) := by
  rw [takeTurn_node]
  exact (Behavior.counted?_disconnectedAll _ _).trans
    (Behavior.counted?_finish now n.id (fun old hold => h.names old hold) _)

theorem fits_takeTurn (h : n.Fits) : (n.takeTurn now supply).1.Fits := by
  refine ⟨fun names hnames => ?_, ?_⟩
  · rw [takeTurn_inputNames]
    exact Option.some.inj ((counted?_takeTurn now supply h).symm.trans hnames)
  · refine ofList_takeTurn fun s hs => ?_
    exact (s.turned _).named (h.named.state hs)

end Turns

theorem fits_lasting : Lasting Fits where
  detach i h := fits_detach h i
  attach e source o i h := fits_attached h e source o i
  set s h := fits_set h s
  turn now supply _ _ h := fits_takeTurn now supply h

theorem fits_create (t : NodeType) (c : Context) (id : NodeId) :
    Fits { (create t c).1 with id } := by
  refine ⟨fun names hcounted => ?_, ?_⟩
  · show (create t c).1.ports.inputNames = names
    rw [inputNames_create]
    change (Behavior.initial t).counted? = some names at hcounted
    cases t with
    | list => cases hcounted
    | _ => exact Option.some.inj hcounted
  · show (Behavior.initial t).OfList Generator.Named
    cases t with
    | list => exact ⟨List.nodup_nil, fun _ hname => absurd hname List.not_mem_nil⟩
    | _ => trivial

/-! ## The ports after a turn -/

section Turns
variable (now : Moment) (supply : Supply)

/-- The gates of a plan are those of the inputs it leaves. -/
theorem input_gates_plan (h : n.Fits) (hstalls : n.behavior.stalls = false) :
    (n.plan now).gates.map Gate.input = (n.resizedTurn now).ports.inputNames ∧
      (n.resizedTurn now).ports.inputNames.Nodup := by
  have hcounted := Behavior.counted?_finish now n.id
    (fun old hold => h.names old hold) (n.readings now [])
  have hgates := Behavior.input_gates_plan now n.id hstalls (n.readings now [])
  rw [n.inputNames_resizedTurn now]
  refine ⟨Option.some.inj (hgates.trans hcounted), ?_⟩
  exact Behavior.nodup_counted? (fits_takeTurn now [] h).named (counted?_takeTurn now [] h)

/-- Gates neither add inputs nor take any away. -/
theorem length_inputs_takeTurn (n : Node) :
    (n.takeTurn now supply).1.ports.inputs.length = (n.resizedTurn now).ports.inputs.length := by
  have hnames := Turn.inputNames_holdAll supply (n.plan now).gates (n.resizedTurn now)
  rw [takeTurn_inputs, ← Directory.length_inputNames, ← Directory.length_inputNames]
  exact congrArg List.length hnames

/-- After a turn that does not stall each input is what its gate leaves of it. -/
theorem getElem?_inputs_takeTurn (h : n.Fits) (hstalls : n.behavior.stalls = false) {i : Nat}
    {p : InputPort} (hp : (n.resizedTurn now).ports.inputs[i]? = some p) :
    ∃ gate, (n.plan now).gates[i]? = some gate ∧ gate.input = p.name ∧
      (n.takeTurn now supply).1.ports.inputs[i]? =
        some (gate.applied (supply.at? (n.resizedTurn now).ports i) p) := by
  obtain ⟨hgates, hnodup⟩ := input_gates_plan now h hstalls
  rw [takeTurn_inputs]
  exact Turn.getElem?_holdAll_of_names hgates hnodup hp

/-- After a turn that does not stall the inputs take the kinds that the plan declares. -/
theorem declared_takeTurn (h : n.Fits) (hstalls : n.behavior.stalls = false) :
    (n.takeTurn now supply).1.ports.inputs.map (fun p => (⟨p.name, p.accepted⟩ : Gate)) =
      (n.plan now).gates := by
  obtain ⟨hgates, -⟩ := input_gates_plan now h hstalls
  have hlength : (n.plan now).gates.length = (n.resizedTurn now).ports.inputs.length := by
    simpa [Directory.inputNames] using congrArg List.length hgates
  have hnames := n.length_inputs_takeTurn now supply
  apply List.ext_getElem?
  intro i
  rw [List.getElem?_map]
  cases hp : (n.resizedTurn now).ports.inputs[i]? with
  | none =>
      have hi : (n.resizedTurn now).ports.inputs.length ≤ i := List.getElem?_eq_none_iff.mp hp
      rw [List.getElem?_eq_none (hnames ▸ hi), List.getElem?_eq_none (hlength ▸ hi)]
      rfl
  | some p =>
      obtain ⟨gate, hgate, hinput, hport⟩ := getElem?_inputs_takeTurn now supply h hstalls hp
      rw [hport, hgate, Option.map_some, Gate.name_applied, Gate.accepted_applied, ← hinput]

/-- When the inputs have been replaced a source is left where the name has stayed. -/
theorem source?_resizedTurn {i : Nat} {a : Address} :
    (n.resizedTurn now).ports.source? i = some a ↔
      n.ports.source? i = some a ∧
        (n.takeTurn now supply).1.ports.inputNames[i]? = n.ports.inputNames[i]? := by
  rw [takeTurn_inputNames]
  unfold resizedTurn
  cases (n.plan now).inputs with
  | none => simp [Turn.resize, Directory.source?, Directory.clearDirty]
  | some names => exact Directory.source?_setInputs (d := n.ports.clearDirty)

/-- After a turn that does not stall a source is left where the name has stayed and no kind came
that the input does not take. -/
theorem source?_takeTurn (h : n.Fits) (hstalls : n.behavior.stalls = false) {i : Nat}
    {a : Address} :
    (n.takeTurn now supply).1.ports.source? i = some a ↔
      (n.resizedTurn now).ports.source? i = some a ∧
        ∀ p c, (n.takeTurn now supply).1.ports.inputs[i]? = some p →
          supply.at? (n.resizedTurn now).ports i = some c → p.accepted.contains c.kind = true := by
  cases hp : (n.resizedTurn now).ports.inputs[i]? with
  | none =>
      have hnone : (n.resizedTurn now).ports.source? i = none := by simp [Directory.source?, hp]
      constructor
      · intro ha
        obtain ⟨q, hq, -⟩ := Directory.source?_eq_some.mp ha
        have hi := (List.getElem?_eq_some_iff.mp hq).1
        rw [length_inputs_takeTurn] at hi
        rw [List.getElem?_eq_getElem hi] at hp
        cases hp
      · rintro ⟨ha, -⟩
        rw [hnone] at ha
        cases ha
  | some p =>
      obtain ⟨gate, -, -, hport⟩ := getElem?_inputs_takeTurn now supply h hstalls hp
      rw [Directory.source?, hport, Directory.source?, hp]
      show (gate.applied _ p).source = some a ↔ p.source = some a ∧ _
      rw [Gate.source_applied]
      constructor
      · rintro ⟨ha, hkinds⟩
        refine ⟨ha, fun q c hq hc => ?_⟩
        cases hq
        rw [Gate.accepted_applied]
        exact hkinds c hc
      · rintro ⟨ha, hkinds⟩
        refine ⟨ha, fun c hc => ?_⟩
        have haccepted := hkinds _ c rfl hc
        rw [Gate.accepted_applied] at haccepted
        exact haccepted

end Turns

end Node

end Patchbay
