import Patchbay.Behavior.Generator
/-!
The turn of a node that makes lists.

Compiling the sources one after the other either ends with the formulas of
all of them, and then it does not matter which formulas were there before,
or it stops at the first source that does not compile.  A turn takes over
the inputs and the formulas that wait, and then ends in one of five ways
(`Generator.Turned`): a formula is broken, no size is there, the list made
last is still good, a list is made, or making one fails.
-/

namespace Patchbay.Generator

/-! ## Compiling -/

variable [Formula.Engine]

/-- The formulas of all sources, when every one compiles. -/
def formulasOf (sources : Components String) : Except FormulaError FormulaSlots := do
  let x ← compileSlot sources.x
  let y ← compileSlot sources.y
  let z ← compileSlot sources.z
  let w ← compileSlot sources.w
  return ⟨x, y, z, w⟩

/-- Compiling source after source, with the slots written out. -/
theorem compileSlots_eq (sources : Components String) (s : FormulaSlots) :
    compileSlots sources s =
      match compileSlot sources.x with
      | .error e => .error e s
      | .ok x =>
        match compileSlot sources.y with
        | .error e => .error e { s with x }
        | .ok y =>
          match compileSlot sources.z with
          | .error e => .error e { s with x, y }
          | .ok z =>
            match compileSlot sources.w with
            | .error e => .error e { s with x, y, z }
            | .ok w => .ok () ⟨x, y, z, w⟩ := by
  simp only [compileSlots, Bind.bind, EStateM.bind]
  cases compileSlot sources.x with
  | error e => rfl
  | ok x =>
      simp only
      cases compileSlot sources.y with
      | error e => rfl
      | ok y =>
          simp only
          cases compileSlot sources.z with
          | error e => rfl
          | ok z =>
              simp only
              cases compileSlot sources.w with
              | error e => rfl
              | ok w => rfl

/-- Compiling ends well exactly with the formulas of all sources. -/
theorem compileSlots_eq_ok {sources : Components String} {s k : FormulaSlots} :
    compileSlots sources s = .ok () k ↔ formulasOf sources = .ok k := by
  rw [compileSlots_eq, formulasOf]
  simp only [Bind.bind, Except.bind]
  cases compileSlot sources.x with
  | error e => simp
  | ok x =>
      simp only
      cases compileSlot sources.y with
      | error e => simp
      | ok y =>
          simp only
          cases compileSlot sources.z with
          | error e => simp
          | ok z =>
              simp only
              cases compileSlot sources.w with
              | error e => simp
              | ok w => simp [Pure.pure, Except.pure]

theorem formulasOf_of_error {sources : Components String} {s k : FormulaSlots} {e : FormulaError}
    (h : compileSlots sources s = .error e k) : ∃ e', formulasOf sources = .error e' := by
  cases hall : formulasOf sources with
  | error e' => exact ⟨e', rfl⟩
  | ok k' =>
      rw [compileSlots_eq_ok.mpr hall] at h
      exact nomatch h

theorem not_formulasOf_of_error {sources : Components String} {s k k' : FormulaSlots}
    {e : FormulaError} (h : compileSlots sources s = .error e k) : formulasOf sources ≠ .ok k' := by
  intro hall
  obtain ⟨e', hbroken⟩ := formulasOf_of_error h
  rw [hall] at hbroken
  exact nomatch hbroken

/-- An expression that is set waits to be compiled; there is no component beyond the four. -/
theorem setExpression_cases (s : Generator) (component : Nat) (source : String) :
    s.setExpression component source = s ∨
      ∃ sources, s.setExpression component source = { s with sources, formulasStale := true } := by
  unfold setExpression
  cases s.sources.set? component source with
  | none => exact Or.inl rfl
  | some sources => exact Or.inr ⟨sources, rfl⟩

/-! ## Taking over what waits -/

/-- The state in which a turn looks at its inputs, when all formulas compile. -/
structure Ready (g next : Generator) : Prop where
  element : next.element = g.element
  dimension : next.dimension = g.dimension
  extraNames : next.extraNames = g.extraNames
  sources : next.sources = g.sources
  portsStale : next.portsStale = false
  formulasStale : next.formulasStale = false
  lastShape : next.lastShape = g.lastShape
  lastValues : next.lastValues = g.lastValues
  variableNames : next.variableNames = g.resized.variableNames
  formulas : g.formulasStale = true → formulasOf g.sources = .ok next.compiled
  compiled : g.formulasStale = false → next.compiled = g.compiled
  error : g.formulasStale = false → next.error = g.error

theorem portsStale_resized (g : Generator) : g.resized.portsStale = false := by
  unfold resized
  cases h : g.portsStale with
  | true => rfl
  | false => simp [h]

/-- Taking over new inputs changes nothing but their names. -/
theorem resized_eq (g : Generator) :
    g.resized = { g with portsStale := false, variableNames := g.resized.variableNames } := by
  obtain ⟨_, _, _, _, _, portsStale, _, _, _, _, _⟩ := g
  cases portsStale with
  | true => rfl
  | false => rfl

theorem sources_resized (g : Generator) : g.resized.sources = g.sources := by rw [resized_eq]

theorem resized_of_fresh {g : Generator} (h : g.portsStale = false) : g.resized = g := by
  simp [resized, h]

/-- The formulas of a state are taken over, or one of them is broken. -/
theorem recompiled_cases (g : Generator) :
    (∃ next, g.resized.recompiled = (next, true) ∧ g.Ready next) ∨
      ∃ e slots, g.formulasStale = true ∧ compileSlots g.sources g.compiled = .error e slots ∧
        g.resized.recompiled = ({ g.resized with
          compiled := slots, formulasStale := false, error := some (.formula e) }, false) := by
  have hstale : g.resized.formulasStale = g.formulasStale := by rw [resized_eq]
  have hcompile : compileSlots g.resized.sources g.resized.compiled =
      compileSlots g.sources g.compiled := by rw [resized_eq]
  unfold recompiled
  rw [hstale, hcompile]
  cases hformulas : g.formulasStale with
  | false =>
      refine Or.inl ⟨g.resized, rfl, ?_⟩
      rw [resized_eq]
      exact ⟨rfl, rfl, rfl, rfl, rfl, hformulas, rfl, rfl, rfl,
        fun h => by simp [hformulas] at h, fun _ => rfl, fun _ => rfl⟩
  | true =>
      simp only [if_true]
      cases hslots : compileSlots g.sources g.compiled with
      | error e slots => exact Or.inr ⟨e, slots, trivial, rfl, rfl⟩
      | ok _ compiled =>
          refine Or.inl ⟨_, rfl, ?_⟩
          rw [resized_eq]
          exact ⟨rfl, rfl, rfl, rfl, rfl, rfl, rfl, rfl, rfl,
            fun _ => compileSlots_eq_ok.mp hslots, fun h => by simp [hformulas] at h,
            fun h => by simp [hformulas] at h⟩

/-! ## The turn -/

/-- Whether an input supplies a size. -/
def Sized (g : Generator) (r : Readings) : Prop := (g.sizes r).all Option.isNone = false

/-- Whether a turn leaves the list made last: no edit waits, and it was made for the same. -/
def reuses (g : Generator) (r : Readings) : Bool :=
  !g.portsStale && !g.formulasStale && g.isCurrent (extentsOf (g.sizes r)) (g.values r)

/-- The list for what the inputs supply. -/
def made (g : Generator) (r : Readings) : Except NodeError Value :=
  generateList g.element g.compiled (extentsOf (g.sizes r))
    (g.variableNames.zip ((g.values r).map Double.ofSingle))

/-- How a turn can end, with the state and the posts. -/
inductive Turned (g : Generator) (r : Readings) : Generator → List Post → Prop
  | broken {e : FormulaError} {slots : FormulaSlots} : g.formulasStale = true →
      compileSlots g.sources g.compiled = .error e slots →
      Turned g r { g.resized with
        compiled := slots, formulasStale := false, error := some (.formula e) } []
  | unsized {next : Generator} : g.Ready next → ¬next.Sized r →
      Turned g r { next with error := some (.missingInput "sizex") } []
  | reused : g.Sized r → g.reuses r = true → Turned g r g []
  | produced {next : Generator} {list : Value} : g.Ready next → next.Sized r →
      ¬g.reuses r = true → next.made r = .ok list →
      Turned g r { next with
        error := none, lastShape := some (next.element, extentsOf (next.sizes r)),
        lastValues := next.values r } [.publish 0 list]
  | failed {next : Generator} {e : NodeError} : g.Ready next → next.Sized r →
      ¬g.reuses r = true → next.made r = .error e → Turned g r { next with error := some e } []

/-- How the state that is ready ends its turn. -/
theorem Ready.turned {g next : Generator} (h : g.Ready next)
    (hnext : g.resized.recompiled = (next, true)) (r : Readings) :
    Turned g r (next.finish (g.portsStale || g.formulasStale) r).1
      (next.finish (g.portsStale || g.formulasStale) r).2 := by
  -- Where no edit waits the state is the one before the turn.
  have hsame : g.portsStale = false → g.formulasStale = false → next = g := by
    intro hports hformulas
    rw [resized_of_fresh hports] at hnext
    simp [recompiled, hformulas] at hnext
    exact hnext.symm
  unfold finish
  by_cases hsized : (next.sizes r).all Option.isNone = true
  · simp only [hsized, if_true]
    exact Turned.unsized h (by simp [Sized, hsized])
  · have hsize : next.Sized r := by simpa [Sized] using hsized
    simp only [hsized, Bool.false_eq_true, if_false]
    by_cases hreuse : g.reuses r = true
    · obtain ⟨⟨hports, hformulas⟩, hcurrent⟩ : (g.portsStale = false ∧ g.formulasStale = false) ∧
          g.isCurrent (extentsOf (g.sizes r)) (g.values r) = true := by
        simpa [reuses] using hreuse
      obtain rfl := hsame hports hformulas
      simp only [hports, hformulas, hcurrent, Bool.or_self, Bool.not_false, Bool.and_self, if_true]
      exact Turned.reused hsize hreuse
    · have hcurrent : ¬(!(g.portsStale || g.formulasStale) &&
          next.isCurrent (extentsOf (next.sizes r)) (next.values r)) = true := by
        intro hcurrent
        obtain ⟨⟨hports, hformulas⟩, hlast⟩ : (g.portsStale = false ∧ g.formulasStale = false) ∧
            next.isCurrent (extentsOf (next.sizes r)) (next.values r) = true := by
          simpa using hcurrent
        obtain rfl := hsame hports hformulas
        exact hreuse (by simp [reuses, hports, hformulas, hlast])
      rw [if_neg hcurrent]
      cases hmade : next.made r with
      | ok list =>
          unfold made at hmade
          rw [hmade]
          exact Turned.produced h hsize hreuse hmade
      | error e =>
          unfold made at hmade
          rw [hmade]
          exact Turned.failed h hsize hreuse hmade

/-- Every turn ends in one of the five ways. -/
theorem turned (g : Generator) (r : Readings) :
    Turned g r (g.plan.finish r).1 (g.plan.finish r).2 := by
  unfold plan
  rcases g.recompiled_cases with ⟨next, hnext, hready⟩ | ⟨e, slots, hstale, hslots, hnext⟩
  · simp only [hnext]
    exact hready.turned hnext r
  · simp only [hnext]
    exact Turned.broken hstale hslots

end Patchbay.Generator
