import Patchbay.Proofs.Encounters
import Patchbay.Proofs.Formulas
import Patchbay.Proofs.Gates
/-!
Turns that repeat the one before.

Beside its ports a node keeps edits that wait, marks of new connections, what
it has compiled and what it last computed.  One turn uses up whatever waits.
The next turn, in which the inputs show the same values and none of them is
flagged, asks for the same inputs and kinds, posts nothing but what the first
one published, and comes to the same error (`Plan.Again`).  This is proved for
one type after the other; only the clock goes on, and a mesh with a load under
way or to start.
-/

namespace Patchbay

namespace Readings

/-- The same values, of which none has just been written, on inputs that keep their sources. -/
structure Repeated (r r' : Readings) : Prop where
  value : r'.value? = r.value?
  still : ∀ name c, r'.cell name = some c → c.dirty = false
  kept : ∀ name, r'.refused name = false

variable {r r' : Readings}

theorem Repeated.float? (h : r.Repeated r') : r'.float? = r.float? := by
  funext name
  rw [Readings.float?, Readings.float?, h.value]

theorem Repeated.uint? (h : r.Repeated r') : r'.uint? = r.uint? := by
  funext name
  rw [Readings.uint?, Readings.uint?, h.value]

theorem Repeated.vector3? (h : r.Repeated r') : r'.vector3? = r.vector3? := by
  funext name
  rw [Readings.vector3?, Readings.vector3?, h.value]

theorem Repeated.changed (h : r.Repeated r') (name : String) : r'.changed name = false := by
  unfold Readings.changed
  cases hc : r'.cell name with
  | none => rfl
  | some c => exact h.still name c hc

/-- The cell that is read when the value of another one was read before. -/
theorem Repeated.cell (h : r.Repeated r') (name : String) :
    r'.cell name = (r.cell name).map Cell.clearDirty := by
  have hvalue := congrFun h.value name
  unfold Readings.value? at hvalue
  cases hc : r'.cell name with
  | none =>
      rw [hc] at hvalue
      cases hold : r.cell name with
      | none => rfl
      | some c => rw [hold] at hvalue; exact nomatch hvalue
  | some c' =>
      rw [hc] at hvalue
      cases hold : r.cell name with
      | none => rw [hold] at hvalue; exact nomatch hvalue
      | some c =>
          rw [hold] at hvalue
          have hstill := h.still name c' hc
          obtain ⟨value, dirty⟩ := c'
          cases hvalue
          cases hstill
          rfl

end Readings

/-- The second plan, in a turn in which the same is read, adds nothing to what the first one
did. -/
structure Plan.Again {σ : Type} (error? : σ → Option NodeError) (p q : Plan σ) (r : Readings) :
    Prop where
  inputs : q.inputs = none
  gates : q.gates = p.gates
  error : ∀ r', r.Repeated r' → error? (q.finish r').1 = error? (p.finish r).1
  posts : ∀ r', r.Repeated r' →
    ∀ x ∈ (q.finish r').2, x ∈ (p.finish r).2 ∧ ∃ i v, x = .publish i v

namespace Plan.Again

variable {σ : Type} {error? : σ → Option NodeError} {p q : Plan σ} {r : Readings}

/-- A second turn that posts nothing. -/
theorem of_silent (hinputs : q.inputs = none) (hgates : q.gates = p.gates)
    (herror : ∀ r', r.Repeated r' → error? (q.finish r').1 = error? (p.finish r).1)
    (hposts : ∀ r', r.Repeated r' → (q.finish r').2 = []) : Plan.Again error? p q r where
  inputs := hinputs
  gates := hgates
  error := herror
  posts r' hr x hx := by
    rw [hposts r' hr] at hx
    exact absurd hx List.not_mem_nil

/-- A second turn that ends as the first one did, with nothing but publishing. -/
theorem of_same (hinputs : q.inputs = none) (hgates : q.gates = p.gates)
    (hsame : ∀ r', r.Repeated r' → error? (q.finish r').1 = error? (p.finish r).1 ∧
      (q.finish r').2 = (p.finish r).2)
    (hpublish : ∀ x ∈ (p.finish r).2, ∃ i v, x = Post.publish i v) :
    Plan.Again error? p q r where
  inputs := hinputs
  gates := hgates
  error r' hr := (hsame r' hr).1
  posts r' hr x hx := by
    rw [(hsame r' hr).2] at hx
    exact ⟨hx, hpublish x hx⟩

/-- The same turns of a node whose state is part of another one. -/
theorem map {τ : Type} {error' : τ → Option NodeError} (h : Plan.Again error? p q r) (f : σ → τ)
    (herror : ∀ s, error' (f s) = error? s) : Plan.Again error' (p.map f) (q.map f) r where
  inputs := h.inputs
  gates := h.gates
  error r' hr := (herror _).trans ((h.error r' hr).trans (herror _).symm)
  posts := h.posts

end Plan.Again

section Types
variable (r : Readings)

/-! ## Meshes -/

theorem MeshSource.again {s : MeshSource} (h : s.idle = true) (now now' : Moment) (id : NodeId) :
    Plan.Again MeshSource.error (s.plan now id) (((s.plan now id).finish r).1.plan now' id) r := by
  rcases plan_of_idle h with hplan | ⟨s', -, hnext, hplan⟩
  · rw [hplan]
    show Plan.Again _ _ (s.plan now' id) r
    rw [hplan]
    exact .of_silent rfl rfl (fun _ _ => rfl) fun _ _ => rfl
  · rw [hplan]
    show Plan.Again _ _ (s'.plan now' id) r
    rw [hnext]
    exact .of_silent rfl rfl (fun _ _ => rfl) fun _ _ => rfl

/-! ## Values computed from values -/

theorem Arithmetic.operation_finish (s : Arithmetic) :
    (s.finish r).1.operation = s.operation := by
  unfold finish
  split <;> rfl

theorem Arithmetic.again (s : Arithmetic) :
    Plan.Again Arithmetic.error s.plan (s.plan.finish r).1.plan r := by
  refine .of_same rfl rfl (fun r' hr => ?_) fun x hx => ?_
  · show ((s.finish r).1.finish r').1.error = (s.finish r).1.error ∧
      ((s.finish r).1.finish r').2 = (s.finish r).2
    rw [finish, operation_finish, hr.value]
    unfold finish
    cases s.operation.combine (r.value? "A") (r.value? "B") with
    | ok v => exact ⟨rfl, rfl⟩
    | error e => exact ⟨rfl, rfl⟩
  · change x ∈ (s.finish r).2 at hx
    unfold finish at hx
    split at hx
    · exact ⟨_, _, List.mem_singleton.mp hx⟩
    · exact absurd hx List.not_mem_nil

theorem Selector.index_finish (s : Selector) : (s.finish r).1.index = s.index := by
  unfold finish missing
  split
  · rfl
  · split
    · rfl
    · split <;> rfl

theorem Selector.again (s : Selector) :
    Plan.Again Selector.error s.plan (s.plan.finish r).1.plan r := by
  refine .of_same rfl rfl (fun r' hr => ?_) fun x hx => ?_
  · show ((s.finish r).1.finish r').1.error = (s.finish r).1.error ∧
      ((s.finish r).1.finish r').2 = (s.finish r).2
    have hrequested : (s.finish r).1.requested r' = s.requested r := by
      unfold requested
      rw [hr.value, index_finish]
    rw [finish, hrequested, hr.value]
    unfold finish
    cases r.value? "list" with
    | none => exact ⟨rfl, rfl⟩
    | some list =>
        simp only
        cases list.listLength?.getD 0 with
        | zero => exact ⟨rfl, rfl⟩
        | succ length =>
            simp only
            cases list.element? (nearest (s.requested r) (length + 1)) with
            | none => exact ⟨rfl, rfl⟩
            | some v => exact ⟨rfl, rfl⟩
  · change x ∈ (s.finish r).2 at hx
    unfold finish missing at hx
    split at hx
    · exact absurd hx List.not_mem_nil
    · split at hx
      · exact absurd hx List.not_mem_nil
      · split at hx
        · exact ⟨_, _, List.mem_singleton.mp hx⟩
        · exact absurd hx List.not_mem_nil

theorem Camera.again (s : Camera) :
    Plan.Again (fun _ => none) s.plan (s.plan.finish r).1.plan r := by
  refine .of_same ?_ rfl (fun r' hr => ⟨rfl, ?_⟩) fun x hx => ?_
  · exact if_pos rfl
  · show (s.switched.switched.finish r').2 = (s.switched.finish r).2
    simp only [finish, hr.vector3?]
    rfl
  · rcases List.mem_cons.mp hx with rfl | hx
    · exact ⟨_, _, rfl⟩
    · exact ⟨_, _, List.mem_singleton.mp hx⟩

theorem Collector.again (s : Collector) :
    Plan.Again (fun _ => none) s.plan (s.plan.finish r).1.plan r := by
  refine .of_same rfl rfl (fun r' hr => ⟨rfl, ?_⟩) fun x hx => ⟨_, _, List.mem_singleton.mp hx⟩
  show [Post.publish 0 (.render (s.collect r'))] = [Post.publish 0 (.render (s.collect r))]
  rw [s.collect_congr hr.value]

/-! ## Values passed on -/

/-- A value that was passed on because it was flagged is passed on once more when a mark of a new
connection is left; otherwise a relay is silent. -/
theorem relayed_again {r' : Readings} (hr : r.Repeated r') (input : String) (refresh : Bool) :
    ∀ x ∈ (relayed input (relayed input refresh r).1 r').2,
      x ∈ (relayed input refresh r).2 ∧ ∃ i v, x = .publish i v := by
  intro x hx
  unfold relayed at hx ⊢
  rw [hr.cell] at hx
  cases hc : r.cell input with
  | none =>
      rw [hc] at hx
      exact absurd hx List.not_mem_nil
  | some c =>
      rw [hc] at hx
      cases hd : c.dirty with
      | true =>
          cases refresh with
          | true =>
              simp only [hd, Option.map_some, Cell.clearDirty, Bool.false_eq_true, if_false,
                if_true] at hx ⊢
              exact ⟨hx, _, _, List.mem_singleton.mp hx⟩
          | false =>
              simp [hd, Cell.clearDirty] at hx
      | false => cases refresh <;> simp [hd, Cell.clearDirty] at hx

theorem Display.again (s : Display) :
    Plan.Again (fun _ => none) s.plan (s.plan.finish r).1.plan r :=
  ⟨rfl, rfl, fun _ _ => rfl, fun _ hr => relayed_again r hr relayInput s.refresh⟩

theorem Delay.again (s : Delay) :
    Plan.Again (fun _ => none) s.plan (s.plan.finish r).1.plan r :=
  ⟨rfl, rfl, fun _ _ => rfl, fun _ hr => relayed_again r hr relayInput s.refresh⟩

/-- A joiner is due once for each change. -/
theorem Joiner.again (s : Joiner) :
    Plan.Again Joiner.error s.plan (s.plan.finish r).1.plan r := by
  have hrefresh : (s.finish r).1.refresh = false := by
    unfold finish
    by_cases hdue : s.isDue r = true
    · rw [if_pos hdue]
      split <;> rfl
    · rw [if_neg hdue]
      simp only [isDue, Bool.or_eq_true, not_or] at hdue
      simpa using hdue.1.1.2
  have hidle : ∀ r', r.Repeated r' →
      ((s.plan.finish r).1.plan.finish r') = ((s.plan.finish r).1, []) := by
    intro r' hr
    have hdue : (s.finish r).1.isDue r' = false := by
      unfold isDue
      rw [hr.changed, hr.changed, hr.kept, hr.kept, hrefresh]
      rfl
    show (s.finish r).1.finish r' = _
    rw [finish, hdue]
    rfl
  refine .of_silent rfl rfl (fun r' hr => ?_) fun r' hr => ?_
  · rw [hidle r' hr]
  · rw [hidle r' hr]

/-! ## Formulas -/

variable [Formula.Engine]

/-- A turn changes nothing of a formula that has been taken over but the error. -/
theorem Evaluator.finish_fst (s : Evaluator) :
    (s.finish r).1 = { s with error := (s.finish r).1.error } := by
  unfold finish
  split
  · rfl
  · split <;> rfl

section Evaluation
variable {s : Evaluator} {f : Formula} (hcompiled : s.compiled = some f) (error : Option NodeError)
include hcompiled

theorem Evaluator.finish_of_ok {v : Float} (hvalue : f.eval (s.bindings r) = .ok v) :
    { s with error }.finish r = ({ s with error := if s.isCurrent f then none else error },
      [.publish 0 (.float (Double.toSingle v))]) := by
  have hsame : f.eval ({ s with error }.bindings r) = .ok v := hvalue
  simp only [finish, hcompiled] at hsame ⊢
  rw [hsame]
  rfl

theorem Evaluator.finish_of_error {e : FormulaError} (hvalue : f.eval (s.bindings r) = .error e) :
    { s with error }.finish r = ({ s with error := some (.formula e) }, []) := by
  have hsame : f.eval ({ s with error }.bindings r) = .error e := hvalue
  simp only [finish, hcompiled] at hsame ⊢
  rw [hsame]

end Evaluation

/-- Evaluating a formula once more comes to the same error and the same result. -/
theorem Evaluator.finish_finish {r' : Readings} (hr : r.Repeated r') (s : Evaluator) :
    ((s.finish r).1.finish r').1.error = (s.finish r).1.error ∧
      ((s.finish r).1.finish r').2 = (s.finish r).2 := by
  cases hcompiled : s.compiled with
  | none =>
      have hfinish : ∀ r, s.finish r = (s, []) := by
        intro r
        rw [finish, hcompiled]
      rw [hfinish, hfinish]
      exact ⟨rfl, rfl⟩
  | some f =>
      have hbindings : s.bindings r' = s.bindings r := by
        simp only [bindings, hr.float?]
      cases hvalue : f.eval (s.bindings r) with
      | ok v =>
          have hfirst : s.finish r = _ := finish_of_ok r hcompiled s.error hvalue
          have hsecond := fun error => finish_of_ok r' hcompiled error (hbindings ▸ hvalue)
          rw [hfirst]
          dsimp only
          rw [hsecond]
          refine ⟨?_, rfl⟩
          dsimp only
          split <;> rfl
      | error e =>
          have hfirst : s.finish r = _ := finish_of_error r hcompiled s.error hvalue
          have hsecond := fun error => finish_of_error r' hcompiled error (hbindings ▸ hvalue)
          rw [hfirst]
          dsimp only
          rw [hsecond]
          exact ⟨rfl, rfl⟩

/-- After a turn no edit of a formula waits. -/
theorem Evaluator.taken_over (s : Evaluator) :
    s.resized.recompiled.pendingArity = none ∧ s.resized.recompiled.pendingSource = none := by
  unfold recompiled
  split
  · next h => exact ⟨rfl, h⟩
  · split
    · exact ⟨rfl, rfl⟩
    · exact ⟨rfl, rfl⟩

theorem Evaluator.resized_recompiled {s : Evaluator} (harity : s.pendingArity = none)
    (hsource : s.pendingSource = none) : s.resized.recompiled = s := by
  obtain ⟨_, pendingArity, _, pendingSource, _, _⟩ := s
  cases harity
  cases hsource
  rfl

theorem Evaluator.again (s : Evaluator) :
    Plan.Again Evaluator.error s.plan (s.plan.finish r).1.plan r := by
  obtain ⟨harity, hsource⟩ := s.taken_over
  show Plan.Again _ s.plan (s.resized.recompiled.finish r).1.plan r
  have hgates : s.plan.gates =
      (inputNames s.resized.recompiled.arity).map fun name => ⟨name, .single .float⟩ := rfl
  have hfinish : s.plan.finish = s.resized.recompiled.finish := rfl
  generalize s.resized.recompiled = next at harity hsource hgates hfinish ⊢
  have hfst := Evaluator.finish_fst r next
  -- The state after the first turn has nothing to take over.
  have hnext : (next.finish r).1.resized.recompiled = (next.finish r).1 := by
    rw [hfst]
    exact resized_recompiled harity hsource
  refine .of_same ?_ ?_ (fun r' hr => ?_) fun x hx => ?_
  · show (next.finish r).1.pendingArity.map inputNames = none
    rw [hfst]
    show next.pendingArity.map inputNames = none
    rw [harity]
    rfl
  · rw [hgates]
    show (inputNames (next.finish r).1.resized.recompiled.arity).map _ = _
    rw [hnext, hfst]
  · rw [hfinish]
    show ((next.finish r).1.resized.recompiled.finish r').1.error = (next.finish r).1.error ∧
      ((next.finish r).1.resized.recompiled.finish r').2 = (next.finish r).2
    rw [hnext]
    exact next.finish_finish r hr
  · rw [hfinish] at hx
    unfold finish at hx
    split at hx
    · exact absurd hx List.not_mem_nil
    · split at hx
      · exact ⟨_, _, List.mem_singleton.mp hx⟩
      · exact absurd hx List.not_mem_nil

end Types

/-! ## Lists made by formulas -/

namespace Generator

variable [Formula.Engine]

/-- Every source compiles. -/
def Compiles (s : Generator) : Prop := ∃ k, formulasOf s.sources = .ok k

/-- No edit waits. -/
structure Settled (s : Generator) : Prop where
  ports : s.portsStale = false
  formulas : s.formulasStale = false

section Lists
variable {s next : Generator} {posts : List Post} {r r' : Readings}

theorem Settled.recompiled (h : s.Settled) : s.resized.recompiled = (s, true) := by
  rw [resized_of_fresh h.ports, Generator.recompiled, h.formulas]
  rfl

theorem Settled.plan (h : s.Settled) : s.plan = ⟨none, s.gates, s.finish false⟩ := by
  rw [Generator.plan, h.recompiled, h.ports, h.formulas]
  rfl

/-- A state without edits is ready as it is. -/
theorem Ready.eq_of_settled (h : s.Ready next) (hs : s.Settled) : next = s := by
  obtain ⟨_, _, _, _, _, _, _, _, _, _, _⟩ := s
  obtain ⟨_, _, _, _, _, _, _, _, _, _, _⟩ := next
  obtain ⟨hports, hformulas⟩ := hs
  have hvariables := h.variableNames
  rw [resized_of_fresh hports] at hvariables
  cases h.element; cases h.dimension; cases h.extraNames; cases h.sources
  cases h.lastShape; cases h.lastValues; cases hvariables
  cases h.compiled hformulas; cases h.error hformulas
  cases hports; cases hformulas; cases h.portsStale; cases h.formulasStale
  rfl

/-- The turn of a state whose sources compile is not broken. -/
theorem Compiles.not_broken (hs : s.Compiles) {k slots : FormulaSlots} {e : FormulaError} :
    compileSlots s.sources k ≠ .error e slots := by
  intro hslots
  obtain ⟨k', hk'⟩ := hs
  exact not_formulasOf_of_error hslots hk'

/-- After a turn no edit is left. -/
theorem Turned.settled (h : s.Turned r next posts) : next.Settled := by
  cases h with
  | broken => exact ⟨s.portsStale_resized, rfl⟩
  | unsized hready => exact ⟨hready.portsStale, hready.formulasStale⟩
  | reused _ hreuse =>
      simp only [reuses, Bool.and_eq_true, Bool.not_eq_true'] at hreuse
      exact ⟨hreuse.1.1, hreuse.1.2⟩
  | produced hready => exact ⟨hready.portsStale, hready.formulasStale⟩
  | failed hready => exact ⟨hready.portsStale, hready.formulasStale⟩

theorem Turned.sources (h : s.Turned r next posts) : next.sources = s.sources := by
  cases h with
  | broken => exact s.sources_resized
  | unsized hready => exact hready.sources
  | reused => rfl
  | produced hready => exact hready.sources
  | failed hready => exact hready.sources

/-- The kinds that a turn asks for, when the sources compile, are those of the state it ends in. -/
theorem Turned.gates_plan (h : s.Turned r next posts) (hs : s.Compiles) :
    next.gates = s.plan.gates := by
  rcases s.recompiled_cases with ⟨ready, hrecompiled, hready⟩ | ⟨e, slots, -, hslots, -⟩
  · have hplan : s.plan.gates = ready.gates := by
      rw [Generator.plan, hrecompiled]
    have hgates : ∀ g, s.Ready g → g.gates = ready.gates := by
      intro g hg
      rw [Generator.gates, Generator.gates, sizeNames, sizeNames, hg.dimension, hready.dimension,
        hg.variableNames, hready.variableNames]
    rw [hplan]
    cases h with
    | broken _ hslots => exact absurd hslots hs.not_broken
    | unsized hnext => exact (hgates _ hnext :)
    | reused hsized hreuse =>
        have hsettled := (Turned.reused hsized hreuse).settled
        rw [hready.eq_of_settled hsettled]
    | produced hnext => exact (hgates _ hnext :)
    | failed hnext => exact (hgates _ hnext :)
  · exact absurd hslots hs.not_broken

theorem Turned.publishes (h : s.Turned r next posts) :
    ∀ x ∈ posts, ∃ i v, x = Post.publish i v := by
  intro x hx
  cases h with
  | produced => exact ⟨_, _, List.mem_singleton.mp hx⟩
  | _ => exact absurd hx List.not_mem_nil

variable (hr : r.Repeated r')
include hr

theorem sizes_repeated (s : Generator) : s.sizes r' = s.sizes r := by
  rw [sizes, sizes, hr.uint?]

theorem values_repeated (s : Generator) : s.values r' = s.values r := by
  rw [values, values, hr.float?]

theorem made_repeated (s : Generator) : s.made r' = s.made r := by
  rw [made, made, sizes_repeated hr, values_repeated hr]

/-- After a turn that is not broken the next one reports the same error and makes no other list. -/
theorem Turned.again (h : s.Turned r next posts) (hs : s.Compiles) {next' : Generator}
    {posts' : List Post} (h' : next.Turned r' next' posts') :
    next'.error = next.error ∧ (posts' = [] ∨ posts' = posts) := by
  have hsettled := h.settled
  have hsized : next.Sized r' ↔ next.Sized r := by
    rw [Sized, Sized, sizes_repeated hr]
  have hreuses : next.reuses r' = next.reuses r := by
    rw [reuses, reuses, sizes_repeated hr, values_repeated hr]
  cases h' with
  | broken hstale => exact absurd (hsettled.formulas.symm.trans hstale) Bool.false_ne_true
  | reused => exact ⟨rfl, Or.inl rfl⟩
  | unsized hready hunsized =>
      obtain rfl := hready.eq_of_settled hsettled
      rw [hsized] at hunsized
      cases h with
      | broken _ hslots => exact absurd hslots hs.not_broken
      | unsized => exact ⟨rfl, Or.inl rfl⟩
      | reused hsize => exact absurd hsize hunsized
      | produced _ hsize => exact absurd hsize hunsized
      | failed _ hsize => exact absurd hsize hunsized
  | produced hready hsize hnew hmade =>
      obtain rfl := hready.eq_of_settled hsettled
      rw [hsized] at hsize
      rw [hreuses] at hnew
      rw [made_repeated hr] at hmade
      cases h with
      | broken _ hslots => exact absurd hslots hs.not_broken
      | unsized _ hunsized => exact absurd hsize hunsized
      | reused _ hreuse => exact absurd hreuse hnew
      | produced _ _ _ hfirst =>
          cases hfirst.symm.trans hmade
          exact ⟨rfl, Or.inr rfl⟩
      | failed _ _ _ hfirst => cases hfirst.symm.trans hmade
  | failed hready hsize hnew hmade =>
      obtain rfl := hready.eq_of_settled hsettled
      rw [hsized] at hsize
      rw [hreuses] at hnew
      rw [made_repeated hr] at hmade
      cases h with
      | broken _ hslots => exact absurd hslots hs.not_broken
      | unsized _ hunsized => exact absurd hsize hunsized
      | reused _ hreuse => exact absurd hreuse hnew
      | produced _ _ _ hfirst => cases hfirst.symm.trans hmade
      | failed _ _ _ hfirst =>
          cases hfirst.symm.trans hmade
          exact ⟨rfl, Or.inl rfl⟩

end Lists

theorem again {s : Generator} (hs : s.Compiles) (r : Readings) :
    Plan.Again Generator.error s.plan (s.plan.finish r).1.plan r := by
  have hfirst := s.turned r
  have hsettled := hfirst.settled
  refine ⟨?_, ?_, fun r' hr => ?_, fun r' hr x hx => ?_⟩
  · rw [hsettled.plan]
  · rw [hsettled.plan]
    exact hfirst.gates_plan hs
  · exact (hfirst.again hr hs ((s.plan.finish r).1.turned r')).1
  · rcases (hfirst.again hr hs ((s.plan.finish r).1.turned r')).2 with hposts | hposts
    · rw [hposts] at hx
      exact absurd hx List.not_mem_nil
    · rw [hposts] at hx
      exact ⟨hx, hfirst.publishes x hx⟩

end Generator

/-! ## Paths -/

namespace Mover

theorem switched_of_settled {m : Mover} (h : m.pendingMode = none) : m.switched = m := by
  obtain ⟨_, pendingMode, _, _, _, _⟩ := m
  cases h
  exact if_pos rfl

theorem pendingMode_switched (m : Mover) : m.switched.pendingMode = none := by
  unfold switched
  simp only
  split <;> rfl

theorem pendingMode_finish (m : Mover) (r : Readings) :
    (m.finish r).1.pendingMode = m.pendingMode := by
  unfold finish
  cases m.mode with
  | alongVector =>
      simp only [placed, turned]
      split
      · split <;> rfl
      · rfl
  | closedSpline =>
      simp only [finishSpline]
      split
      · rfl
      · simp only [placed, missingPoints, refitted]
        split <;> split <;> rfl
  | _ => rfl

theorem publishes_finish (m : Mover) (r : Readings) :
    ∀ x ∈ (m.finish r).2, ∃ i v, x = Post.publish i v := by
  intro x hx
  have hplaced : ∀ (m : Mover) (p : Vec3), x ∈ (m.placed p).2 → ∃ i v, x = Post.publish i v :=
    fun m p hx => ⟨_, _, List.mem_singleton.mp hx⟩
  unfold finish at hx
  cases hmode : m.mode with
  | closedSpline =>
      simp only [hmode, finishSpline] at hx
      split at hx
      · exact absurd hx List.not_mem_nil
      · split at hx
        · exact hplaced _ _ hx
        · exact absurd hx List.not_mem_nil
  | _ =>
      simp only [hmode] at hx
      exact hplaced _ _ hx

/-- A direction and a spline that have been taken over once are taken over as they are. -/
theorem finish_finish {r r' : Readings} (hr : r.Repeated r') (m : Mover) :
    ((m.finish r).1.finish r').1.error = (m.finish r).1.error ∧
      ((m.finish r).1.finish r').2 = (m.finish r).2 := by
  cases hmode : m.mode with
  | alongVector =>
      cases hv : r.vector3? PathMode.directionInput with
      | none => simp [finish, hmode, placed, turned, hr.float?, hr.vector3?, hv]
      | some v =>
          by_cases hlong : Single.epsilon.below v.length = true
          · simp [finish, hmode, placed, turned, hr.float?, hr.vector3?, hv, hlong]
          · simp [finish, hmode, placed, turned, hr.float?, hr.vector3?, hv, hlong]
  | closedSpline =>
      cases hc : r.cell PathMode.pointsInput with
      | none => simp [finish, hmode, finishSpline, missingPoints, hr.cell, hc]
      | some c =>
          by_cases hfit : (m.spline.isNone || c.dirty) = true
          · cases hcurve : c.value.vector3List?.bind ClosedSpline.through with
            | none =>
                simp [finish, hmode, finishSpline, missingPoints, refitted, hr.cell, hc, hfit,
                  hcurve, Cell.clearDirty]
            | some curve =>
                simp [finish, hmode, finishSpline, placed, refitted, hr.cell, hr.float?, hc, hfit,
                  hcurve, Cell.clearDirty]
          · cases hspline : m.spline with
            | none => simp [hspline] at hfit
            | some curve =>
                simp [hspline] at hfit
                simp [finish, hmode, finishSpline, placed, refitted, hr.cell, hr.float?, hc,
                  hspline, hfit, Cell.clearDirty]
  | _ => simp [finish, hmode, placed, hr.float?]

theorem again (m : Mover) (r : Readings) :
    Plan.Again Mover.error m.plan (m.plan.finish r).1.plan r := by
  have hmode : (m.switched.finish r).1.mode = m.switched.mode := m.switched.mode_finish r
  have hswitched : (m.switched.finish r).1.switched = (m.switched.finish r).1 :=
    switched_of_settled ((m.switched.pendingMode_finish r).trans m.pendingMode_switched)
  refine .of_same ?_ ?_ (fun r' hr => ?_) (m.switched.publishes_finish r)
  · show (if (m.switched.finish r).1.switched.mode = (m.switched.finish r).1.mode then none
      else some (m.switched.finish r).1.switched.mode.inputNames) = none
    rw [hswitched, if_pos rfl]
  · show (m.switched.finish r).1.switched.mode.gates = m.switched.mode.gates
    rw [hswitched, hmode]
  · show ((m.switched.finish r).1.switched.finish r').1.error = _ ∧
      ((m.switched.finish r).1.switched.finish r').2 = _
    rw [hswitched]
    exact finish_finish hr m.switched

end Mover

/-! ## Every type -/

namespace Behavior

variable [Formula.Engine]

/-- A behavior that does nothing by itself: it is no clock, has no load under way or to start, and
the sources of a list compile. -/
structure Steady (b : Behavior) : Prop where
  timeless : b.type ≠ .time
  idle : b.idle = true
  compiles : b.OfList Generator.Compiles

theorem Steady.again {b : Behavior} (h : b.Steady) (now now' : Moment) (id : NodeId)
    (r : Readings) :
    Plan.Again Behavior.error? (b.plan now id) (((b.plan now id).finish r).1.plan now' id) r := by
  cases b with
  | time => exact absurd rfl h.timeless
  | value s =>
      obtain ⟨scalar, pending⟩ := s
      cases pending with
      | none => exact .of_silent rfl rfl (fun _ _ => rfl) fun _ _ => rfl
      | some bits => exact .of_silent rfl rfl (fun _ _ => rfl) fun _ _ => rfl
  | vector s | color s | worldPos s => exact .of_silent rfl rfl (fun _ _ => rfl) fun _ _ => rfl
  | math s => exact (s.again r).map math fun _ => rfl
  | function s => exact (s.again r).map function fun _ => rfl
  | list s => exact (Generator.again h.compiles r).map list fun _ => rfl
  | listAccess s => exact (s.again r).map listAccess fun _ => rfl
  | listJoin s => exact (s.again r).map listJoin fun _ => rfl
  | display s => exact (s.again r).map display fun _ => rfl
  | feedback s => exact (s.again r).map feedback fun _ => rfl
  | mesh s => exact (MeshSource.again r h.idle now now' id).map mesh fun _ => rfl
  | camera s => exact (s.again r).map camera fun _ => rfl
  | render s => exact (s.again r).map render fun _ => rfl
  | path s => exact (s.again r).map path fun _ => rfl

end Behavior

end Patchbay
