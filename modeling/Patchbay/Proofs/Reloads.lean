import Patchbay.Formula.Basic
import Patchbay.Proofs.Forwarding
/-!
Formulas after a load.

A scene keeps the formula that a function shows.  A function may evaluate
another one, though: when the formula shown does not compile it goes on with
the last one that did, and of that one a scene keeps nothing.  If every
function either shows a formula that compiles or has none to evaluate, the
graph and its copy evaluate the same formulas from the next turn on
(`Evaluator.Refitted`), which is a simulation, so they go on alike.  A
function that has lost its formula evaluates nothing, and its output stays as
it was saved until it is given another one.
-/

namespace Patchbay

open Bytes

/-! ## The formula of the next turn -/

variable [Formula.Engine]

namespace Evaluator

variable {e e' : Evaluator} {f : Formula}

/-- Nothing of the formula is lost in a scene: the one shown compiles, or there is none that is
evaluated. -/
def Recovers (e : Evaluator) : Prop :=
  e.compiled = none ∨ ∃ f, Formula.compile e.expression = .ok f

instance : DecidablePred Recovers := fun e =>
  decidable_of_iff (e.compiled.isNone = true ∨ (Formula.compile e.expression).toOption.isSome = true) <|
    or_congr Option.isNone_iff_eq_none <| by
      cases Formula.compile e.expression with
      | ok f => simp [Except.toOption]
      | error cause => simp [Except.toOption]

/-- The formula shown does not compile. -/
def Broken (e : Evaluator) : Prop := ∀ f, Formula.compile e.expression ≠ .ok f

/-- A formula that compiles is evaluated as soon as it has been taken over. -/
def Fitted (e : Evaluator) : Prop :=
  e.pendingSource = none → ∀ f, Formula.compile e.source = .ok f → e.compiled = some f

/-- As a scene leaves it, a function has a formula to take over and none to evaluate. -/
def Unfitted (e : Evaluator) : Prop := e.compiled = none ∧ e.pendingSource ≠ none

theorem Unfitted.fitted (h : e.Unfitted) : e.Fitted := fun hnone => absurd hnone h.2

/-- The formula is the last thing that is read, whether or not an arity waits. -/
theorem yields_get_unfitted : Evaluator.get.Yields Unfitted := by
  have hformula : ∀ arity pendingArity, BlockReader.Yields
      (do
        let source ← BlockReader.field Wire.text
        return { initial with arity, pendingArity, pendingSource := some source, compiled := none })
      Unfitted := by
    intro arity pendingArity
    refine BlockReader.yields_after fun source => BlockReader.yields_pure ?_
    exact ⟨rfl, fun hnone => nomatch hnone⟩
  unfold Evaluator.get
  refine BlockReader.yields_after fun _ => BlockReader.yields_after fun arity => ?_
  refine BlockReader.yields_after fun byte => ?_
  cases byte with
  | none => exact BlockReader.yields_after fun pending => hformula arity pending
  | some byte => exact BlockReader.yields_after fun pending => hformula arity pending

/-- The formula shown is evaluated in the next turn, if it compiles. -/
theorem Fitted.compiled_recompiled (h : e.Fitted) (hf : Formula.compile e.expression = .ok f) :
    e.recompiled.compiled = some f := by
  unfold recompiled
  cases hsource : e.pendingSource with
  | none =>
      rw [expression, hsource] at hf
      exact h hsource f hf
  | some source =>
      rw [expression, hsource] at hf
      have hf : Formula.compile source = .ok f := hf
      simp only [hf]

/-- Otherwise the last one is. -/
theorem Broken.compiled_recompiled (h : e.Broken) : e.recompiled.compiled = e.compiled := by
  unfold recompiled
  cases hsource : e.pendingSource with
  | none => rfl
  | some source =>
      have hbroken : ∀ f, Formula.compile source ≠ .ok f := by
        intro f hf
        refine h f ?_
        rw [expression, hsource]
        exact hf
      cases hcompile : Formula.compile source with
      | ok f => exact absurd hcompile (hbroken f)
      | error cause => simp only [hcompile]

/-- The state when all edits have been taken over, but for the error. -/
theorem exists_taken_over (e : Evaluator) :
    ∃ error, e.resized.recompiled =
      ⟨e.pendingArity.getD e.arity, none, e.expression, none, e.recompiled.compiled, error⟩ := by
  unfold recompiled resized expression
  obtain ⟨arity, pendingArity, source, pendingSource, compiled, error⟩ := e
  cases pendingSource with
  | none => exact ⟨error, rfl⟩
  | some source =>
      dsimp only
      cases Formula.compile source with
      | ok f => exact ⟨none, rfl⟩
      | error cause => exact ⟨some (.formula cause), rfl⟩

/-- The state after a turn, but for the error. -/
theorem fst_finish_plan (e : Evaluator) (r : Readings) :
    ∃ error, (e.plan.finish r).1 =
      ⟨e.pendingArity.getD e.arity, none, e.expression, none, e.recompiled.compiled, error⟩ := by
  obtain ⟨error, hnext⟩ := e.exists_taken_over
  have hfst := finish_fst r e.resized.recompiled
  generalize (e.resized.recompiled.finish r).1.error = error' at hfst
  exact ⟨error', hfst.trans (by rw [hnext])⟩

/-- What is evaluated is a matter of the formula, the variables in use and the values read. -/
theorem snd_finish_congr {r r' : Readings} (harity : e'.arity = e.arity)
    (hcompiled : e'.compiled = e.compiled) (hr : r'.value? = r.value?) :
    (e'.finish r').2 = (e.finish r).2 := by
  have hbindings : e'.bindings r' = e.bindings r := by
    simp only [bindings, Readings.float?, hr, harity]
  unfold finish
  rw [hcompiled]
  cases e.compiled with
  | none => rfl
  | some f =>
      simp only [hbindings]
      cases f.eval (e.bindings r) with
      | ok x => rfl
      | error cause => rfl

/-! ## Functions that go on alike -/

/-- Two functions look alike in a scene and evaluate the same formula in their next turns. -/
structure Refitted (e e' : Evaluator) : Prop where
  reloaded : e'.reloaded = e.reloaded
  compiled : e'.recompiled.compiled = e.recompiled.compiled

section Looks
variable (h : e'.reloaded = e.reloaded)
include h

theorem arity_of_reloaded : e'.arity = e.arity := by
  show e'.reloaded.arity = e.reloaded.arity
  rw [h]

theorem pendingArity_of_reloaded : e'.pendingArity = e.pendingArity := by
  show e'.reloaded.pendingArity = e.reloaded.pendingArity
  rw [h]

theorem expression_of_reloaded : e'.expression = e.expression := by
  have hsource : e'.reloaded.pendingSource = e.reloaded.pendingSource := by rw [h]
  exact Option.some.inj hsource

/-- The copy of a function whose formula is not lost. -/
theorem refitted_of_recovers (he : e.Fitted) (hrecovers : e.Recovers) (he' : e'.Unfitted) :
    e.Refitted e' := by
  refine ⟨h, ?_⟩
  cases hcompile : Formula.compile e.expression with
  | ok f =>
      have hcopy : Formula.compile e'.expression = .ok f := by
        rw [expression_of_reloaded h]
        exact hcompile
      rw [he.compiled_recompiled hcompile, he'.fitted.compiled_recompiled hcopy]
  | error cause =>
      have hbroken : e.Broken := by
        intro f hf
        rw [hcompile] at hf
        exact nomatch hf
      have hbroken' : e'.Broken := by
        unfold Broken
        rw [expression_of_reloaded h]
        exact hbroken
      rw [hbroken.compiled_recompiled, hbroken'.compiled_recompiled, he'.1]
      rcases hrecovers with hnone | ⟨f, hf⟩
      · exact hnone.symm
      · exact absurd hf (hbroken f)

end Looks

section Turns
variable (h : e.Refitted e')
include h

theorem Refitted.arity : e'.pendingArity.getD e'.arity = e.pendingArity.getD e.arity := by
  rw [arity_of_reloaded h.reloaded, pendingArity_of_reloaded h.reloaded]

theorem Refitted.inputs : e'.plan.inputs = e.plan.inputs :=
  congrArg (Option.map inputNames) (pendingArity_of_reloaded h.reloaded)

theorem Refitted.gates : e'.plan.gates = e.plan.gates := by
  show (inputNames e'.resized.recompiled.arity).map _ = (inputNames e.resized.recompiled.arity).map _
  obtain ⟨_, hnext⟩ := e.exists_taken_over
  obtain ⟨_, hnext'⟩ := e'.exists_taken_over
  rw [hnext, hnext', h.arity]

/-- A turn in which both read the same values. -/
theorem Refitted.finish {r r' : Readings} (hr : r'.value? = r.value?) :
    (e.plan.finish r).1.Refitted (e'.plan.finish r').1 ∧
      (e'.plan.finish r').2 = (e.plan.finish r).2 := by
  constructor
  · obtain ⟨error, hnext⟩ := e.fst_finish_plan r
    obtain ⟨error', hnext'⟩ := e'.fst_finish_plan r'
    rw [hnext, hnext', h.arity, expression_of_reloaded h.reloaded, h.compiled]
    exact ⟨rfl, rfl⟩
  · obtain ⟨_, hnext⟩ := e.exists_taken_over
    obtain ⟨_, hnext'⟩ := e'.exists_taken_over
    refine snd_finish_congr ?_ ?_ hr
    · rw [hnext, hnext']
      exact h.arity
    · rw [hnext, hnext']
      exact h.compiled

end Turns

end Evaluator

/-! ## Behaviors -/

namespace Behavior

/-- Two functions that evaluate the same formula in their next turns. -/
inductive Refitted : Behavior → Behavior → Prop
  | function {e e' : Evaluator} : e.Refitted e' → Refitted (.function e) (.function e')

theorem simulation_refitted : Simulation Refitted where
  reloaded h := by
    cases h with
    | function h => exact congrArg Behavior.function h.reloaded
  plan h now now' id id' := by
    cases h with
    | function h => exact ⟨h.inputs, h.gates⟩
  finish h now now' id id' r r' hr := by
    cases h with
    | function h =>
        obtain ⟨hnext, hposts⟩ := h.finish hr
        exact ⟨.function hnext, hposts⟩
  left h input := by
    cases h with
    | function h => exact .function h
  right h input := by
    cases h with
    | function h => exact .function h

/-- What the state of a function satisfies. -/
def OfFunction (P : Evaluator → Prop) : Behavior → Prop
  | .function e => P e
  | _ => True

theorem ofFunction_of_type {P : Evaluator → Prop} {b : Behavior} (h : b.type ≠ .function) :
    b.OfFunction P := by
  cases b with
  | function e => exact absurd rfl h
  | _ => trivial

theorem OfFunction.state {P : Evaluator → Prop} {b : Behavior} (h : b.OfFunction P) {e : Evaluator}
    (hb : b = .function e) : P e := by
  subst hb
  exact h

theorem unfitted_initial (t : NodeType) : (initial t).OfFunction Evaluator.Unfitted := by
  cases t with
  | function => exact ⟨rfl, fun hnone => nomatch hnone⟩
  | _ => trivial

/-- A function out of a scene has its formula to take over. -/
theorem unfitted_get (t : NodeType) :
    (get t).Yields fun b => b.OfFunction Evaluator.Unfitted := by
  cases t with
  | function => exact Evaluator.yields_get_unfitted.map fun _ he => he
  | listJoin | time | display | feedback => exact BlockReader.yields_pure trivial
  | _ => exact BlockReader.yields_map fun _ => trivial

end Behavior

/-! ## Nodes -/

namespace Node

theorem exists_function {n : Node} (h : n.type = .function) : ∃ e, n.behavior = .function e := by
  unfold type at h
  cases hb : n.behavior with
  | function e => exact ⟨e, rfl⟩
  | _ => rw [hb] at h; exact nomatch h

/-- A node that looks like a function in a scene is one. -/
theorem exists_function_of_content {n m : Node} (h : m.content = n.content) {e : Evaluator}
    (hb : n.behavior = .function e) :
    ∃ e', m.behavior = .function e' ∧ e'.reloaded = e.reloaded := by
  have htype : m.type = .function := by
    refine (congrArg Content.type h).trans ?_
    show n.type = .function
    rw [type, hb]
    rfl
  obtain ⟨e', hb'⟩ := exists_function htype
  have hbehavior : m.behavior.reloaded = n.behavior.reloaded := congrArg Content.behavior h
  rw [hb, hb'] at hbehavior
  exact ⟨e', hb', Behavior.function.inj hbehavior⟩

theorem firstValue?_of_content {n m : Node} (h : m.content = n.content) :
    m.ports.firstValue? = n.ports.firstValue? := by
  have hshown : m.ports.shown = n.ports.shown := congrArg Content.outputs h
  rw [Directory.firstValue?, Directory.firstValue?, Directory.value_cell?, Directory.value_cell?,
    hshown]

/-- Edits concern a function only when they set its arity or its formula. -/
theorem durable_ofFunction {P : Evaluator → Prop} (harity : ∀ {e} r, P e → P (e.setArity r))
    (hformula : ∀ {e} source, P e → P (e.setExpression source)) :
    Durable fun n => n.behavior.OfFunction P := by
  refine durable_of_behavior (B := fun b _ => b.OfFunction P) ?_ ?_ ?_
  · intro b _ input p h
    cases b with
    | function e => exact h
    | _ => trivial
  · intro b _ input h
    cases b with
    | function e => exact h
    | _ => trivial
  · intro b _ s h
    cases b with
    | function e =>
        cases s with
        | arity r => exact harity r h
        | formula source => exact hformula source h
        | _ => exact h
    | _ => cases s <;> trivial

theorem durable_unfitted : Durable fun n => n.behavior.OfFunction Evaluator.Unfitted :=
  durable_ofFunction (fun _ h => h) fun _ h => ⟨h.1, fun hnone => nomatch hnone⟩

section Turns
variable {now : Moment} {supply : Supply} {n : Node} {e : Evaluator}

theorem outcome_of_function (hb : n.behavior = .function e) :
    n.outcome now supply = (.function (e.plan.finish (n.readings now supply)).1,
      (e.plan.finish (n.readings now supply)).2) := by
  unfold outcome plan
  rw [hb]
  rfl

theorem behavior_of_function (hb : n.behavior = .function e) :
    (n.takeTurn now supply).1.behavior = .function (e.plan.finish (n.readings now supply)).1 :=
  behavior_of_deaf (outcome_of_function hb) fun _ => rfl

end Turns

theorem lasting_fitted : Lasting fun n => n.behavior.OfFunction Evaluator.Fitted where
  toDurable := durable_ofFunction (fun _ h => h) fun _ _ hnone => nomatch hnone
  turn {n} now supply _ _ h := by
    by_cases htype : n.type = .function
    · obtain ⟨e, hb⟩ := exists_function htype
      obtain ⟨error, hnext⟩ := e.fst_finish_plan (n.readings now supply)
      rw [behavior_of_function hb, hnext]
      exact fun _ f hf => (h.state hb).compiled_recompiled hf
    · refine Behavior.ofFunction_of_type fun hfunction => htype ?_
      exact (takeTurn_type now supply n).symm.trans hfunction

/-- A function that evaluates nothing, and shows a formula that does not compile. -/
structure Stuck (out : Option Value) (n : Node) : Prop where
  function : ∃ e, n.behavior = .function e ∧ e.compiled = none ∧ e.Broken
  output : n.ports.firstValue? = out

/-- It stays so, and with it its output. -/
theorem Stuck.takeTurn {out : Option Value} {n : Node} (h : n.Stuck out) (now : Moment)
    (supply : Supply) (hn : n.ports.Indexed) : (n.takeTurn now supply).1.Stuck out := by
  obtain ⟨e, hb, hnone, hbroken⟩ := h.function
  obtain ⟨error, hnext⟩ := e.fst_finish_plan (n.readings now supply)
  constructor
  · refine ⟨_, behavior_of_function hb, ?_⟩
    rw [hnext]
    exact ⟨hbroken.compiled_recompiled.trans hnone, hbroken⟩
  · obtain ⟨_, htaken⟩ := e.exists_taken_over
    have hcompiled : e.resized.recompiled.compiled = none := by
      rw [htaken]
      exact hbroken.compiled_recompiled.trans hnone
    have hposts : (e.plan.finish (n.readings now supply)).2 = [] := by
      show (e.resized.recompiled.finish _).2 = []
      rw [Evaluator.finish, hcompiled]
    refine (firstValue?_of_silent hn ?_).trans h.output
    rw [outcome_of_function hb]
    exact hposts

end Node

/-! ## Graphs -/

namespace Graph

variable {g : Graph}

theorem Reachable.fitted (h : g.Reachable) :
    g.Throughout fun n => n.behavior.OfFunction Evaluator.Fitted := by
  refine h.throughout Node.lasting_fitted fun a g n hn => ?_
  have hunfitted : n.behavior.OfFunction Evaluator.Unfitted :=
    Action.behavior_of_brings Behavior.unfitted_initial Behavior.unfitted_get hn
  cases hb : n.behavior with
  | function e => exact (hunfitted.state hb).fitted
  | _ => trivial

theorem unfitted_load (g : Graph) (bytes : List UInt8) :
    (g.load bytes).2.Throughout fun n => n.behavior.OfFunction Evaluator.Unfitted :=
  throughout_load Node.durable_unfitted g fun _ hn =>
    Action.behavior_of_load Behavior.unfitted_get hn

theorem exists_stuck_after_frames (frames : List Frame) {g : Graph} (h : Standing g.ids g)
    {x : NodeId} {out : Option Value} (hn : ∃ n, g.node? x = some n ∧ n.Stuck out) :
    ∃ m, (g.runFrames frames).node? x = some m ∧ m.Stuck out := by
  induction frames generalizing g with
  | nil => exact hn
  | cons frame frames ih =>
      obtain ⟨n, hn, hstuck⟩ := hn
      obtain ⟨poll, f, hframe⟩ := frame.apply_eq
      obtain ⟨done, rest, hids⟩ := exists_place hn
      refine ih (g := frame.apply g) ?_ ?_
      · rw [hframe]
        exact standing_invariant.frame poll f h
      · rw [hframe, node?_after_frame h.1.nodup hids poll f hn]
        exact ⟨_, rfl, hstuck.takeTurn _ _ (h.1.ports_indexed hn)⟩

section Copies
variable {g' : Graph} (hcontent : g'.nodes.map Node.content = g.nodes.map Node.content)
  (hunfitted : g'.Throughout fun n => n.behavior.OfFunction Evaluator.Unfitted)
include hcontent hunfitted

/-- A graph in which no formula is lost, and its copy. -/
theorem Reachable.follows_of_recovers (h : g.Reachable) (hloaded : Sustained g.ids g')
    (hsource : ∀ c i, g'.source? c i = g.source? c i)
    (htypes : ∀ n ∈ g.nodes, n.type.resumes = true ∨ n.type = .function)
    (hrecovers : ∀ n ∈ g.nodes, n.behavior.OfFunction Evaluator.Recovers) :
    Follows (fun b b' => b.Resumed b' ∨ b.Refitted b') g.ids g g' := by
  refine ⟨sustained_invariant.of_reachable h, hloaded, hcontent, hsource, fun x n m hn hm => ?_⟩
  obtain ⟨m', hm', hlooks⟩ := node?_of_content hcontent hn
  rw [hm] at hm'
  cases hm'
  have hmem := mem_of_nodeIn? hn
  rcases htypes n hmem with hresumes | hfunction
  · exact Or.inl ⟨hresumes, congrArg Content.behavior hlooks⟩
  · obtain ⟨e, hb⟩ := Node.exists_function hfunction
    obtain ⟨e', hb', hreloaded⟩ := Node.exists_function_of_content hlooks hb
    rw [hb, hb']
    exact Or.inr (.function (Evaluator.refitted_of_recovers hreloaded ((h.fitted x n hn).state hb)
      ((hrecovers n hmem).state hb) ((hunfitted x m hm).state hb')))

/-- The copy of a function whose formula does not compile has nothing to evaluate. -/
theorem exists_stuck_of_broken {x : NodeId} {n : Node} (hn : g.node? x = some n) {e : Evaluator}
    (hb : n.behavior = .function e) (hbroken : e.Broken) :
    ∃ m, g'.node? x = some m ∧ m.Stuck n.ports.firstValue? := by
  obtain ⟨m, hm, hlooks⟩ := node?_of_content hcontent hn
  obtain ⟨e', hb', hreloaded⟩ := Node.exists_function_of_content hlooks hb
  have hbroken' : e'.Broken := by
    unfold Evaluator.Broken
    rw [Evaluator.expression_of_reloaded hreloaded]
    exact hbroken
  exact ⟨m, hm, ⟨e', hb', ((hunfitted x m hm).state hb').1, hbroken'⟩,
    Node.firstValue?_of_content hlooks⟩

end Copies

/-- What becomes of functions when a graph is saved and loaded.  If the formula that is shown
compiles wherever there is one to evaluate, the graph and its copy go on alike, and functions have
the same outputs after whatever frames.  A function whose formula does not compile has the output
that was saved, for as long as frames are run. -/
theorem functions_after_load (h : g.Reachable) (hsize : g.save.length < sizeLimit)
    (htypes : ∀ n ∈ g.nodes, n.type.resumes = true ∨ n.type = .function) (k : Graph)
    (frames : List Frame) :
    (k.load g.save).1 = .ok () ∧
      ((∀ n ∈ g.nodes, n.behavior.OfFunction Evaluator.Recovers) →
        ((k.load g.save).2.runFrames frames).nodes.map Node.content =
          (g.runFrames frames).nodes.map Node.content ∧
        ∀ e, e ∈ ((k.load g.save).2.runFrames frames).edges.edges ↔
          e ∈ (g.runFrames frames).edges.edges) ∧
      ∀ x n e, g.node? x = some n → n.behavior = .function e → e.Broken →
        ∃ m, ((k.load g.save).2.runFrames frames).node? x = some m ∧
          m.ports.firstValue? = n.ports.firstValue? := by
  have hlists : ∀ n ∈ g.nodes, n.type ≠ .list := by
    intro n hn hlist
    rcases htypes n hn with hresumes | hfunction
    · rw [hlist] at hresumes
      exact nomatch hresumes
    · rw [hlist] at hfunction
      exact nomatch hfunction
  obtain ⟨g', hload, hloaded, hcontent, hsource⟩ :=
    exists_load_alike h (storable_of_listless hsize hlists) k
  have hunfitted : g'.Throughout fun n => n.behavior.OfFunction Evaluator.Unfitted := by
    have hunfitted := unfitted_load k g.save
    rw [hload] at hunfitted
    exact hunfitted
  rw [hload]
  refine ⟨rfl, fun hrecovers => ?_, fun x n e hn hb hbroken => ?_⟩
  · have hlater :=
      (h.follows_of_recovers hcontent hunfitted hloaded hsource htypes hrecovers).runFrames
        (Behavior.simulation_resumed.or Behavior.simulation_refitted) frames
    exact ⟨hlater.content, hlater.edges⟩
  · have hstanding : Standing g'.ids g' := by
      rw [ids_of_content hcontent]
      exact hloaded.1
    obtain ⟨m, hm, hlater⟩ := exists_stuck_after_frames frames hstanding
      (exists_stuck_of_broken hcontent hunfitted hn hb hbroken)
    exact ⟨m, hm, hlater.output⟩

end Graph

end Patchbay

/-! ## With the standard engine -/

namespace Patchbay.Graph

open Bytes

/-- A function of a number, which is given another formula; the formula is taken over in the next
frame. -/
def reformulated (source : String) : Graph :=
  run [.create .value, .create .function, .connect ⟨0⟩ 0 ⟨2⟩ 0, .step Poll.none 0,
    .set ⟨0⟩ (.constant (.float ⟨0x40a00000⟩)), .set ⟨2⟩ (.formula source)] (empty "functions")

/-- With a formula that compiles the copy comes to the same, also where the formula waited. -/
theorem functions_after_load_of_reformulated :
    (reformulated "x + x").Reachable ∧ (reformulated "x + x").save.length < sizeLimit ∧
      (∀ n ∈ (reformulated "x + x").nodes, n.type.resumes = true ∨ n.type = .function) ∧
      (((empty "copy").load (reformulated "x + x").save).2.runFrames
          [.step Poll.none 0, .tick Poll.none 7]).nodes.map Node.content =
        ((reformulated "x + x").runFrames [.step Poll.none 0, .tick Poll.none 7]).nodes.map
          Node.content := by
  have hreachable : (reformulated "x + x").Reachable := ⟨_, _, rfl⟩
  have hsize : (reformulated "x + x").save.length < sizeLimit := by decide +kernel
  have htypes : ∀ n ∈ (reformulated "x + x").nodes,
      n.type.resumes = true ∨ n.type = .function := by decide
  have hlater := functions_after_load hreachable hsize htypes (empty "copy")
    [.step Poll.none 0, .tick Poll.none 7]
  refine ⟨hreachable, hsize, htypes, (hlater.2.1 fun n hn => ?_).1⟩
  have hnodes : (reformulated "x + x").nodes = [_, _] := rfl
  rw [hnodes] at hn
  rcases List.mem_cons.mp hn with rfl | hn
  · trivial
  · rw [List.mem_singleton.mp hn]
    show Evaluator.Recovers _
    decide +kernel

/-- With one that does not the graph goes on with the old formula and the new number, and the copy
has what was saved. -/
theorem parted_of_reformulated :
    (reformulated "(").Reachable ∧ (reformulated "(").save.length < sizeLimit ∧
      (∀ n ∈ (reformulated "(").nodes, n.type = .value ∨ n.type = .function) ∧
      (((reformulated "(").runFrames [.step Poll.none 0]).node? ⟨2⟩).bind (·.ports.firstValue?) =
        some (.float ⟨0x40a00000⟩) ∧
      ((((empty "copy").load (reformulated "(").save).2.runFrames [.step Poll.none 0]).node?
        ⟨2⟩).bind (·.ports.firstValue?) = some (.float .one) := by
  refine ⟨⟨_, _, rfl⟩, ?_, ?_, ?_, ?_⟩
  · decide +kernel
  · decide
  · decide +kernel
  · decide +kernel

end Patchbay.Graph
