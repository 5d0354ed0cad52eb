import Patchbay.Frame.Plan
/-!
What inputs read from, and what replacing inputs does to it.

`Directory.source?` is the view of a directory that wiring is about: where
the input with a given number reads from.  Replacing the inputs is described
place by place: the port at a place is the old one where its name stays and
a fresh one elsewhere, and what is reported lost is every source whose name
did not stay.
-/

namespace Patchbay

namespace Directory

/-- Where input number `i` reads from. -/
def source? (d : Directory) (i : Nat) : Option Address := d.inputs[i]?.bind InputPort.source

/-- Every source names the place of the input it belongs to. -/
def Indexed (d : Directory) : Prop := ∀ i a, d.source? i = some a → a.input.toNat = i

/-- No input has a source. -/
def Loose (d : Directory) : Prop := ∀ i, d.source? i = none

theorem source?_eq_some {d : Directory} {i : Nat} {a : Address} :
    d.source? i = some a ↔ ∃ p, d.inputs[i]? = some p ∧ p.source = some a := by
  simp [source?, Option.bind_eq_some_iff]

theorem source?_congr {d d' : Directory} (h : d'.inputs = d.inputs) (i : Nat) :
    d'.source? i = d.source? i := by
  rw [source?, source?, h]

/-! ## Changing one input -/

theorem source?_modifyInput (d : Directory) (i j : Nat) (f : InputPort → InputPort) :
    (d.modifyInput i f).source? j =
      if i = j then d.inputs[j]?.bind fun p => (f p).source else d.source? j := by
  simp only [source?, modifyInput, List.getElem?_modify]
  split
  · cases d.inputs[j]? <;> rfl
  · cases d.inputs[j]? <;> rfl

/-- A change of an input that leaves its source alone. -/
theorem source?_modifyInput_of_source {d : Directory} {i : Nat} {f : InputPort → InputPort}
    (hf : ∀ p, (f p).source = p.source) (j : Nat) :
    (d.modifyInput i f).source? j = d.source? j := by
  rw [source?_modifyInput]
  split
  · simp only [hf]; rfl
  · rfl

theorem source?_detach (d : Directory) (i j : Nat) :
    (d.modifyInput i InputPort.detach).source? j = if i = j then none else d.source? j := by
  rw [source?_modifyInput]
  split
  · cases d.inputs[j]? <;> rfl
  · rfl

theorem source?_attach {d : Directory} {i : Nat} {p : InputPort} (hp : d.inputs[i]? = some p)
    (a : Address) (j : Nat) :
    (d.modifyInput i (·.attach a)).source? j = if i = j then some a else d.source? j := by
  rw [source?_modifyInput]
  split
  · next h => subst h; rw [hp]; rfl
  · rfl

theorem length_inputNames (d : Directory) : d.inputNames.length = d.inputs.length := List.length_map _

theorem inputNames_modifyInput {d : Directory} {i : Nat} {f : InputPort → InputPort}
    (hf : ∀ p, (f p).name = p.name) : (d.modifyInput i f).inputNames = d.inputNames := by
  apply List.ext_getElem?
  intro j
  simp only [inputNames, modifyInput, List.getElem?_map, List.getElem?_modify]
  cases d.inputs[j]? with
  | none => rfl
  | some p =>
      by_cases h : i = j
      · simp [h, hf]
      · simp [h]

theorem inputNames_detach (d : Directory) (i : Nat) :
    (d.modifyInput i InputPort.detach).inputNames = d.inputNames :=
  inputNames_modifyInput fun _ => rfl

/-! ## Putting values on outputs -/

theorem inputs_post (d : Directory) (p : Post) : (d.post p).inputs = d.inputs := by
  cases p <;> rfl

theorem inputs_posts (posts : List Post) (d : Directory) :
    (posts.foldl post d).inputs = d.inputs := by
  induction posts generalizing d with
  | nil => rfl
  | cons p posts ih => rw [List.foldl_cons, ih, inputs_post]

theorem outputNames_modifyCell (d : Directory) (i : Nat) (f : Cell → Cell) :
    (d.modifyCell i f).outputNames = d.outputNames := by
  apply List.ext_getElem?
  intro j
  simp only [outputNames, modifyCell, List.getElem?_map, List.getElem?_modify]
  cases d.outputs[j]? with
  | none => rfl
  | some o =>
      by_cases h : i = j
      · simp [h]
      · simp [h]

theorem outputNames_post (d : Directory) (p : Post) : (d.post p).outputNames = d.outputNames := by
  cases p with
  | publish i v => exact outputNames_modifyCell d i _
  | write i v => exact outputNames_modifyCell d i _

theorem outputNames_posts (posts : List Post) (d : Directory) :
    (posts.foldl post d).outputNames = d.outputNames := by
  induction posts generalizing d with
  | nil => rfl
  | cons p posts ih => rw [List.foldl_cons, ih, outputNames_post]

theorem outputNames_clearDirty (d : Directory) : d.clearDirty.outputNames = d.outputNames := by
  simp [outputNames, clearDirty, Function.comp_def]

/-- A new directory has the names it was made with, and nothing is attached. -/
theorem loose_new (inputs outputs : List String) : (new inputs outputs).Loose := by
  intro i
  simp only [source?, new, measured, List.getElem?_map]
  cases inputs[i]? <;> rfl

theorem outputNames_new (inputs outputs : List String) :
    (new inputs outputs).outputNames = outputs := by
  simp [new, measured, outputNames, OutputPort.fresh, Function.comp_def]

theorem inputNames_new (inputs outputs : List String) :
    (new inputs outputs).inputNames = inputs := by
  simp [new, measured, inputNames, InputPort.fresh, Function.comp_def]

/-! ## Replacing the inputs -/

/-- The port under a name at a place where `old` stood. -/
def underName (old : Option InputPort) (name : String) : InputPort :=
  match old with
  | some p => if p.name = name then p else InputPort.fresh name
  | none => InputPort.fresh name

theorem name_underName (old : Option InputPort) (name : String) :
    (underName old name).name = name := by
  cases old with
  | none => rfl
  | some p =>
      by_cases h : p.name = name
      · simp [underName, h]
      · simp [underName, h, InputPort.fresh]

theorem getElem?_renamed (ps : List InputPort) (names : List String) (i : Nat) :
    (renamed ps names)[i]? = names[i]?.map (underName ps[i]?) := by
  induction names generalizing ps i with
  | nil => simp [renamed]
  | cons name names ih =>
      cases ps with
      | nil =>
          cases i with
          | zero => rfl
          | succ i => simp [renamed, ih]
      | cons p ps =>
          cases i with
          | zero => rfl
          | succ i => simp [renamed, ih]

theorem renamed_fresh (names names' : List String) :
    renamed (names.map InputPort.fresh) names' = names'.map InputPort.fresh := by
  apply List.ext_getElem?
  intro i
  rw [getElem?_renamed, List.getElem?_map, List.getElem?_map]
  cases names'[i]? with
  | none => rfl
  | some name' =>
      cases names[i]? with
      | none => rfl
      | some name =>
          simp only [Option.map_some, underName, InputPort.fresh, Option.some.injEq]
          split
          · next h => rw [← h]
          · rfl

theorem inputNames_renamed (ps : List InputPort) (names : List String) :
    (renamed ps names).map InputPort.name = names := by
  apply List.ext_getElem?
  intro i
  rw [List.getElem?_map, getElem?_renamed]
  cases names[i]? with
  | none => rfl
  | some name => exact congrArg some (name_underName ps[i]? name)

theorem inputNames_setInputs (d : Directory) (names : List String) :
    (d.setInputs names).1.inputNames = names :=
  inputNames_renamed d.inputs names

/-- An input keeps its source where its name stays. -/
theorem source?_setInputs {d : Directory} {names : List String} {i : Nat} {a : Address} :
    (d.setInputs names).1.source? i = some a ↔
      d.source? i = some a ∧ names[i]? = d.inputNames[i]? := by
  have hport : (d.setInputs names).1.source? i = (renamed d.inputs names)[i]?.bind InputPort.source :=
    rfl
  rw [hport, getElem?_renamed, source?, inputNames, List.getElem?_map]
  cases names[i]? with
  | none => cases d.inputs[i]? <;> simp
  | some name =>
      cases d.inputs[i]? with
      | none => simp [underName, InputPort.fresh]
      | some p =>
          by_cases h : p.name = name
          · simp [underName, h]
          · simp [underName, h, InputPort.fresh, Ne.symm h]

theorem mem_droppedBy {x : Dropped} {p : InputPort} :
    x ∈ droppedBy p ↔ x.name = p.name ∧ p.source = some x.address := by
  unfold droppedBy
  cases p.source with
  | none => simp
  | some a =>
      constructor
      · intro h
        rw [List.mem_singleton] at h
        subst h
        exact ⟨rfl, rfl⟩
      · rintro ⟨hname, ha⟩
        obtain ⟨name, address⟩ := x
        simp only [Option.some.injEq] at hname ha
        simp [hname, ha]

/-- The report of the first port, in front of that of the others. -/
theorem lost_cons (p : InputPort) (ps : List InputPort) (names : List String) :
    lost (p :: ps) names =
      (if names.head? = some p.name then [] else droppedBy p) ++ lost ps names.tail := by
  cases names with
  | nil => rfl
  | cons name names => simp only [lost, List.head?_cons, List.tail_cons, Option.some.injEq, eq_comm]

/-- A source is reported lost exactly where a name did not stay. -/
theorem mem_lost {ps : List InputPort} {names : List String} {x : Dropped} :
    x ∈ lost ps names ↔
      ∃ (i : Nat) (p : InputPort), ps[i]? = some p ∧ names[i]? ≠ some p.name ∧ x ∈ droppedBy p := by
  induction ps generalizing names with
  | nil => simp [lost]
  | cons p ps ih =>
      rw [lost_cons, List.mem_append, ih, List.head?_eq_getElem?]
      constructor
      · rintro (h | ⟨i, q, hq, hn, hx⟩)
        · split at h
          · exact absurd h List.not_mem_nil
          · next hname => exact ⟨0, p, rfl, hname, h⟩
        · rw [List.getElem?_tail] at hn
          exact ⟨i + 1, q, hq, hn, hx⟩
      · rintro ⟨i, q, hq, hn, hx⟩
        cases i with
        | zero =>
            cases hq
            left
            rwa [if_neg hn]
        | succ i =>
            right
            rw [← List.getElem?_tail] at hn
            exact ⟨i, q, hq, hn, hx⟩

end Directory

end Patchbay
