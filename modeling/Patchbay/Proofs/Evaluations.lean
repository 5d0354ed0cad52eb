import Patchbay.Formula.Basic
import Patchbay.Proofs.Directions
import Patchbay.Proofs.Reloads
/-!
The formula that a function evaluates, and what it reports.

A function has a source that it shows, one that may wait, a formula that it
evaluates and an error, and its turns write them on branches of their own.
What they come to is said by a record beside the graph (`Action.recount`):
the source that waits, and the sources that the function has taken over since
it was made or loaded, the last one first.  `Evaluator.Recounts` ties a state
to its record.  The load-bearing part is that a source which does not compile
stays reported: a later evaluation of an older formula may fail and put
another error in the place of the report, but only the formula that is shown
can take it away.
-/

namespace Patchbay

variable [Formula.Engine]

/-- A formula has the source that it was compiled from. -/
theorem Formula.source_of_compile {source : String} {f : Formula} (h : compile source = .ok f) :
    f.source = source := by
  simp only [compile] at h
  split at h
  · cases h
    rfl
  · exact nomatch h

namespace Evaluator

/-! ## The record of a function -/

/-- The formula of the first of the sources that compiles. -/
def lastFormula? (sources : List String) : Option Formula :=
  sources.findSome? fun source => (Formula.compile source).toOption

/-- The source that waits, and those that have been taken over, the last one first. -/
structure History where
  waiting : Option String
  applied : List String

/-- A function begins with the formula `x`, which waits. -/
def History.begun : History := ⟨some "x", []⟩

/-- In a turn the source that waits is taken over. -/
def History.turned (h : History) : History := ⟨none, h.waiting.toList ++ h.applied⟩

/-- The state of a function with a record.  Before its first turn a source waits.  After it the
last source is shown, the formula of the last one that compiles is evaluated, and a last source
that does not compile is reported. -/
structure Recounts (h : History) (e : Evaluator) : Prop where
  waiting : e.pendingSource = h.waiting
  begun : h.applied = [] → h.waiting ≠ none
  shown : ∀ source, h.applied.head? = some source → e.source = source
  compiled : e.compiled = lastFormula? h.applied
  reported : ∀ source, h.applied.head? = some source →
    (∀ f, Formula.compile source ≠ .ok f) → e.error ≠ none

section Sources
variable {source : String} {sources : List String} {f : Formula}

theorem lastFormula?_of_compiles (h : Formula.compile source = .ok f) :
    lastFormula? (source :: sources) = some f := by
  rw [lastFormula?, List.findSome?_cons, h]
  rfl

theorem lastFormula?_of_broken {cause : FormulaError} (h : Formula.compile source = .error cause) :
    lastFormula? (source :: sources) = lastFormula? sources := by
  rw [lastFormula?, List.findSome?_cons, h]
  rfl

theorem compile_of_lastFormula? (h : lastFormula? sources = some f) :
    Formula.compile f.source = .ok f := by
  obtain ⟨source, -, hsource⟩ := List.exists_of_findSome?_eq_some h
  cases hcompile : Formula.compile source with
  | ok f' =>
      rw [hcompile] at hsource
      cases hsource
      rw [Formula.source_of_compile hcompile]
      exact hcompile
  | error cause =>
      rw [hcompile] at hsource
      exact nomatch hsource

end Sources

/-! ## The turn of a function -/

section Turns
variable {e : Evaluator} {h : History}

/-- Taking over what waits. -/
theorem Recounts.recompiled (hrec : e.Recounts h) : e.resized.recompiled.Recounts h.turned := by
  cases hwaiting : h.waiting with
  | none =>
      have hpending : e.resized.pendingSource = none := hrec.waiting.trans hwaiting
      have hturned : h.turned = ⟨none, h.applied⟩ := by
        rw [History.turned, hwaiting]
        rfl
      have hsame : e.resized.recompiled = e.resized := by
        rw [Evaluator.recompiled, hpending]
      rw [hturned, hsame]
      exact ⟨hpending, fun hnil => absurd hwaiting (hrec.begun hnil), hrec.shown, hrec.compiled,
        hrec.reported⟩
  | some source =>
      have hpending : e.resized.pendingSource = some source := hrec.waiting.trans hwaiting
      have hturned : h.turned = ⟨none, source :: h.applied⟩ := by
        rw [History.turned, hwaiting]
        rfl
      rw [hturned]
      cases hcompile : Formula.compile source with
      | ok f =>
          have hnext : e.resized.recompiled = { e.resized with
              source, pendingSource := none, compiled := some f, error := none } := by
            simp only [Evaluator.recompiled, hpending, hcompile]
          rw [hnext]
          refine ⟨rfl, fun hnil => (nomatch hnil), fun s hs => Option.some.inj hs,
            (lastFormula?_of_compiles hcompile).symm, fun s hs hbroken => ?_⟩
          cases hs
          exact absurd hcompile (hbroken f)
      | error cause =>
          have hnext : e.resized.recompiled = { e.resized with
              source, pendingSource := none, error := some (.formula cause) } := by
            simp only [Evaluator.recompiled, hpending, hcompile]
          rw [hnext]
          exact ⟨rfl, fun hnil => (nomatch hnil), fun s hs => Option.some.inj hs,
            hrec.compiled.trans (lastFormula?_of_broken hcompile).symm,
            fun _ _ _ hnone => nomatch hnone⟩

/-- What the turn of a function comes to: it evaluates the last formula that compiled and posts the
result, if there is one, and it is without an error when that formula is the one shown. -/
structure Judged (h : History) (vars : Formula.Bindings) (error : Option NodeError)
    (posts : List Post) : Prop where
  posted : ∀ f y, lastFormula? h.applied = some f → f.eval vars = .ok y →
    posts = [.publish 0 (.float (Double.toSingle y))]
  silent : (¬∃ f y, lastFormula? h.applied = some f ∧ f.eval vars = .ok y) → posts = []
  content : error = none ↔ ∃ f y, lastFormula? h.applied = some f ∧
    h.applied.head? = some f.source ∧ f.eval vars = .ok y

section Verdicts
variable {vars : Formula.Bindings} {error : Option NodeError} {f : Formula}

/-- Nothing is evaluated, and an error stands. -/
theorem judged_of_unevaluated (herror : error ≠ none)
    (hnone : ¬∃ f y, lastFormula? h.applied = some f ∧ f.eval vars = .ok y) :
    Judged h vars error [] where
  posted f y hlast hvalue := absurd ⟨f, y, hlast, hvalue⟩ hnone
  silent _ := rfl
  content := iff_of_false herror fun ⟨f, y, hlast, _, hvalue⟩ => hnone ⟨f, y, hlast, hvalue⟩

/-- A formula is evaluated, and an error stands unless the formula is the one shown. -/
theorem judged_of_evaluated {y : Float} (hlast : lastFormula? h.applied = some f)
    (hvalue : f.eval vars = .ok y) (herror : error = none ↔ h.applied.head? = some f.source) :
    Judged h vars error [.publish 0 (.float (Double.toSingle y))] where
  posted f' y' hlast' hvalue' := by
    cases hlast.symm.trans hlast'
    cases hvalue.symm.trans hvalue'
    rfl
  silent hnone := absurd ⟨f, y, hlast, hvalue⟩ hnone
  content := by
    rw [herror]
    constructor
    · intro hhead
      exact ⟨f, y, hlast, hhead, hvalue⟩
    · rintro ⟨f', _, hlast', hhead, -⟩
      cases hlast.symm.trans hlast'
      exact hhead

end Verdicts

/-- When no source compiles the last one does not. -/
theorem Recounts.error_of_none (hrec : e.Recounts h) (happlied : h.applied ≠ [])
    (hlast : lastFormula? h.applied = none) : e.error ≠ none := by
  obtain ⟨source, rest, hcons⟩ := List.exists_cons_of_ne_nil happlied
  rw [hcons] at hlast
  refine hrec.reported source (by rw [hcons]; rfl) fun f hf => ?_
  rw [lastFormula?_of_compiles hf] at hlast
  exact nomatch hlast

/-- The formula that is evaluated is the one shown, or an error stands. -/
theorem Recounts.current_or_error (hrec : e.Recounts h) {f : Formula}
    (hlast : lastFormula? h.applied = some f) :
    (e.isCurrent f = true ∧ h.applied.head? = some f.source) ∨
      (e.isCurrent f = false ∧ h.applied.head? ≠ some f.source ∧ e.error ≠ none) := by
  cases happlied : h.applied with
  | nil =>
      rw [happlied] at hlast
      exact nomatch hlast
  | cons source rest =>
      have hhead : h.applied.head? = some source := by rw [happlied]; rfl
      have hshown : e.isCurrent f = (f.source == source) := by
        rw [isCurrent, hrec.shown source hhead]
      rw [hshown]
      by_cases hsame : f.source = source
      · exact Or.inl ⟨beq_iff_eq.mpr hsame, congrArg some hsame.symm⟩
      · refine Or.inr ⟨beq_false_of_ne hsame, fun heq => hsame (Option.some.inj heq).symm, ?_⟩
        refine hrec.reported source hhead fun f' hf' => hsame ?_
        rw [happlied, lastFormula?_of_compiles hf'] at hlast
        cases hlast
        exact Formula.source_of_compile hf'

/-- The turn of a function that has nothing to take over any more. -/
theorem Recounts.judged (hrec : e.Recounts h) (hidle : h.waiting = none) (r : Readings) :
    Judged h (e.bindings r) (e.finish r).1.error (e.finish r).2 := by
  have hcompiled := hrec.compiled
  cases hlast : lastFormula? h.applied with
  | none =>
      rw [hlast] at hcompiled
      have hfinish : e.finish r = (e, []) := by rw [Evaluator.finish, hcompiled]
      rw [hfinish]
      refine judged_of_unevaluated ?_ ?_
      · exact hrec.error_of_none (fun hnil => hrec.begun hnil hidle) hlast
      · rintro ⟨f, y, hf, -⟩
        cases hlast.symm.trans hf
  | some f =>
      rw [hlast] at hcompiled
      cases hvalue : f.eval (e.bindings r) with
      | error cause =>
          have hfinish : e.finish r = ({ e with error := some (.formula cause) }, []) :=
            finish_of_error r hcompiled e.error hvalue
          rw [hfinish]
          refine judged_of_unevaluated (Option.some_ne_none _) ?_
          rintro ⟨f', y, hf', hy⟩
          cases hlast.symm.trans hf'
          cases hvalue.symm.trans hy
      | ok y =>
          have hfinish : e.finish r = ({ e with error := if e.isCurrent f then none else e.error },
              [.publish 0 (.float (Double.toSingle y))]) :=
            finish_of_ok r hcompiled e.error hvalue
          rw [hfinish]
          refine judged_of_evaluated hlast hvalue ?_
          rcases hrec.current_or_error hlast with ⟨hcurrent, hhead⟩ | ⟨hcurrent, hhead, herror⟩
          · exact iff_of_true (if_pos hcurrent) hhead
          · refine iff_of_false ?_ hhead
            rw [if_neg (Bool.eq_false_iff.mp hcurrent)]
            exact herror

/-- Evaluating leaves the record as it is: the report of a broken source is taken away by no other
formula. -/
theorem Recounts.finish (hrec : e.Recounts h) (hidle : h.waiting = none) (r : Readings) :
    (e.finish r).1.Recounts h := by
  have hjudged := hrec.judged hidle r
  have hfst := finish_fst r e
  generalize (e.finish r).1.error = error at hjudged hfst
  rw [hfst]
  refine ⟨hrec.waiting, hrec.begun, hrec.shown, hrec.compiled, fun source hhead hbroken => ?_⟩
  -- Without an error it is the formula shown that has been evaluated, and so one that compiles.
  intro hnone
  obtain ⟨f, y, hlast, hhead', -⟩ := hjudged.content.mp hnone
  cases hhead.symm.trans hhead'
  exact hbroken f (compile_of_lastFormula? hlast)

/-- A turn takes over what waits and comes to what the record then says. -/
theorem Recounts.turn (hrec : e.Recounts h) (r : Readings) :
    (e.plan.finish r).1.Recounts h.turned ∧
      Judged h.turned (e.resized.recompiled.bindings r) (e.plan.finish r).1.error
        (e.plan.finish r).2 :=
  ⟨hrec.recompiled.finish rfl r, hrec.recompiled.judged rfl r⟩

end Turns

/-- A function that has been made, or read from a scene, has taken over nothing. -/
theorem Unfitted.recounts {e : Evaluator} (h : e.Unfitted) :
    e.Recounts ⟨some e.expression, []⟩ where
  waiting := by
    obtain ⟨source, hsource⟩ := Option.ne_none_iff_exists'.mp h.2
    rw [expression, hsource]
    rfl
  begun _ hnone := nomatch hnone
  shown _ hhead := nomatch hhead
  compiled := h.1
  reported _ hhead := nomatch hhead

/-- The record when a field has been set. -/
def History.edited (h : History) : Setting → History
  | .formula source => { h with waiting := some source }
  | _ => h

end Evaluator

/-! ## Nodes -/

namespace Behavior

variable {P : Evaluator → Prop} {b : Behavior}

/-- Functions take no notice of their wiring. -/
theorem OfFunction.connected (h : b.OfFunction P) (input : String) (p : ProducerInfo) :
    (b.connected input p).OfFunction P := by
  cases b with
  | function e => exact h
  | _ => trivial

theorem OfFunction.disconnected (h : b.OfFunction P) (input : String) :
    (b.disconnected input).OfFunction P := by
  cases b with
  | function e => exact h
  | _ => trivial

/-- A formula that is set waits from then on. -/
theorem recounts_onBehavior {h : Evaluator.History} (hb : b.OfFunction (Evaluator.Recounts h))
    (s : Setting) : (s.onBehavior b).OfFunction (Evaluator.Recounts (h.edited s)) := by
  cases b with
  | function e =>
      have hrec : e.Recounts h := hb
      cases s with
      | formula source =>
          exact ⟨rfl, fun _ hnone => (nomatch hnone), hrec.shown, hrec.compiled, hrec.reported⟩
      | arity r =>
          exact ⟨hrec.waiting, hrec.begun, hrec.shown, hrec.compiled, hrec.reported⟩
      | _ => exact hrec
  | _ => cases s <;> trivial

/-- What a function shows, if the behavior is one. -/
def formula? : Behavior → Option String
  | function e => some e.expression
  | _ => none

end Behavior

namespace Node

/-- A function has a state with the record. -/
def Recounts (h : Evaluator.History) (n : Node) : Prop :=
  n.behavior.OfFunction (Evaluator.Recounts h)

variable {n : Node} {h : Evaluator.History}

/-- A function takes no notice of its wiring. -/
theorem Recounts.rewired {m : Node} (hn : n.Recounts h)
    (hnm : Relation.ReflTransGen Rewire n m) : m.Recounts h := by
  induction hnm with
  | refl => exact hn
  | tail _ hstep ih =>
      cases hstep with
      | detach i =>
          simp only [Node.detach]
          split
          · exact ih
          · exact Behavior.OfFunction.disconnected ih _
      | attach e source o i =>
          rw [Graph.attachedNode_eq]
          refine Behavior.OfFunction.connected ?_ _ _
          split
          · exact Behavior.OfFunction.disconnected ih _
          · exact ih

theorem Recounts.set (hn : n.Recounts h) (s : Setting) : (s.onNode n).Recounts (h.edited s) := by
  cases s with
  | name text =>
      show (n.renamed text).Recounts h
      rw [Node.renamed_eq]
      split
      · exact hn
      · exact hn
  | geometry place => exact hn
  | _ => exact Behavior.recounts_onBehavior hn _

theorem recounts_create (t : NodeType) (c : Context) (id : NodeId) :
    Recounts .begun { (create t c).1 with id } := by
  cases t with
  | function => exact Evaluator.Unfitted.recounts (e := .initial) ⟨rfl, fun hnone => nomatch hnone⟩
  | _ => trivial

theorem Recounts.takeTurn (hn : n.Recounts h) (now : Moment) (supply : Supply) :
    (n.takeTurn now supply).1.Recounts h.turned := by
  by_cases htype : n.type = .function
  · obtain ⟨e, hb⟩ := exists_function htype
    have hrec : e.Recounts h := Behavior.OfFunction.state hn hb
    simp only [Recounts]
    rw [behavior_of_function hb]
    exact (hrec.turn _).1
  · refine Behavior.ofFunction_of_type fun hfunction => htype ?_
    exact (takeTurn_type now supply n).symm.trans hfunction

/-- After its turn a function shows what the turn came to, with the variables that it found. -/
theorem Recounts.judged_takeTurn (hn : n.Recounts h) {now : Moment} {supply : Supply}
    (hports : n.ports.Indexed) (hsound : n.Sound) {e : Evaluator}
    (hb : (n.takeTurn now supply).1.behavior = .function e) :
    ∃ posts, Evaluator.Judged h.turned (e.bindings (n.readings now supply)) e.error posts ∧
      Effected posts n.ports.firstValue? (n.takeTurn now supply).1.ports.firstValue? := by
  have htype : n.type = .function := by
    rw [← takeTurn_type now supply n, type, hb]
    rfl
  obtain ⟨e', hb'⟩ := exists_function htype
  rw [behavior_of_function hb'] at hb
  cases hb
  have hrec : e'.Recounts h := Behavior.OfFunction.state hn hb'
  have harity : (e'.plan.finish (n.readings now supply)).1.arity = e'.resized.recompiled.arity :=
    e'.resized.recompiled.arity_finish _
  obtain ⟨c, hc⟩ := hsound.exists_cell
    (show 0 < n.type.outputNames.length by rw [htype]; exact Nat.one_pos)
  have heffect := effected_takeTurn now supply hports hc
  rw [outcome_of_function hb'] at heffect
  refine ⟨_, ?_, heffect⟩
  rw [Evaluator.bindings, harity]
  exact (hrec.turn _).2

end Node

/-! ## Graphs -/

namespace Graph

/-- The record of the node `x` after an action, if it is a function.  It is told by the calls alone,
but for the source that a scene has for the node. -/
def Action.recount (x : NodeId) (a : Action) (g : Graph) (h : Evaluator.History) :
    Evaluator.History :=
  match a with
  | step _ _ | tick _ _ => h.turned
  | set y s => if y = x then h.edited s else h
  | load bytes => ⟨((g.load bytes).2.node? x).bind fun n => n.behavior.formula?, []⟩
  | clear => .begun
  | a => if a.displaces? g = some x then .begun else h

/-- The record of the node `x` after a run. -/
def formulasOf (x : NodeId) (actions : List Action) (g : Graph) (h : Evaluator.History) :
    Evaluator.History :=
  match actions with
  | [] => h
  | a :: actions => formulasOf x actions (a.apply g) (a.recount x g h)

/-- The node `x`, if it is a function, has a state with the record. -/
def Recounted (x : NodeId) (h : Evaluator.History) (g : Graph) : Prop :=
  ∀ n, g.node? x = some n → n.Recounts h

variable {g : Graph} {x : NodeId} {h : Evaluator.History}

/-- A function that is only rewired keeps its record. -/
theorem Recounted.descends {New : Node → Prop} {g' : Graph}
    (hdescends : Descends Node.Rewire New g g') (hx : Recounted x h g)
    (hnew : ∀ n, New n → n.Recounts h) : Recounted x h g' :=
  fun m hm => by
    obtain ⟨n, hnm, hn | hn⟩ := hdescends x m hm
    · exact (hx n hn).rewired hnm
    · exact (hnew n hn).rewired hnm

theorem Recounted.add (hx : Recounted x h g) {n : Node} (hn : n.Recounts .begun) :
    Recounted x (if some n.id = some x then .begun else h) (g.addNode n) := by
  intro m hm
  rw [addNode_eq, node?_inserted (not_mem_ids_removeNode g n.id)] at hm
  by_cases hid : x = n.id
  · rw [if_pos hid] at hm
    cases hm
    rw [if_pos (congrArg some hid.symm)]
    exact hn
  · rw [if_neg hid] at hm
    rw [if_neg fun heq => hid (Option.some.inj heq).symm]
    exact hx.descends (descends_remove g n.id) (fun _ (hnew : False) => hnew.elim) m hm

theorem Recounted.set (hx : Recounted x h g) (y : NodeId) (s : Setting) :
    Recounted x (if y = x then h.edited s else h) (g.modifyNode y s.onNode) := by
  intro m hm
  rw [node?_set] at hm
  by_cases hy : x = y
  · rw [if_pos hy] at hm
    rw [if_pos hy.symm]
    obtain ⟨n, hn, rfl⟩ := Option.map_eq_some_iff.mp hm
    exact (hx n hn).set s
  · rw [if_neg hy] at hm
    rw [if_neg fun heq => hy heq.symm]
    exact hx m hm

/-- A function out of a scene has its source to take over, and no more. -/
theorem recounted_load (x : NodeId) (g : Graph) (bytes : List UInt8) :
    Recounted x ((Action.load bytes).recount x g h) (g.load bytes).2 := by
  intro n hn
  have hunfitted : n.behavior.OfFunction Evaluator.Unfitted := unfitted_load g bytes x n hn
  show n.Recounts ⟨((g.load bytes).2.node? x).bind _, []⟩
  rw [hn, Option.bind_some]
  cases hb : n.behavior with
  | function e =>
      rw [hb] at hunfitted
      simp only [Node.Recounts, hb]
      exact Evaluator.Unfitted.recounts hunfitted
  | _ => simp only [Node.Recounts, hb, Behavior.OfFunction]

theorem Recounted.frame (hg : g.ids.Nodup) (hx : Recounted x h g) (frame : Frame) :
    Recounted x h.turned (frame.apply g) := by
  intro m hm
  rw [frame.apply_read] at hm
  obtain ⟨n, done, rest, hn, -, rfl⟩ := exists_turn hg hm
  exact (hx n hn).takeTurn _ _

theorem Recounted.apply (hg : g.Reachable) (hx : Recounted x h g) (a : Action) :
    Recounted x (a.recount x g h) (a.apply g) := by
  cases a with
  | create t =>
      exact Recounted.add (g := { g with context := (Node.create t g.context).2 }) hx
        (Node.recounts_create t g.context _)
  | add t c => exact hx.add (Node.recounts_create t c _)
  | remove id =>
      intro m hm
      have hid := (exists_node_before_removal hm).1
      have hrecount : (Action.remove id).recount x g h = h :=
        if_neg fun heq => hid (Option.some.inj heq).symm
      rw [hrecount]
      exact hx.descends (descends_remove g id) (fun _ (hnew : False) => hnew.elim) m hm
  | set y s => exact hx.set y s
  | step poll dt => exact hx.frame hg.wired.nodup (.step poll dt)
  | tick poll now => exact hx.frame hg.wired.nodup (.tick poll now)
  | clear => exact fun m hm => nomatch hm
  | load bytes => exact recounted_load x g bytes
  | _ => exact hx.descends (descends_wiring g rfl rfl) fun _ hnew => hnew.elim

theorem Recounted.run (hg : g.Reachable) (hx : Recounted x h g) (actions : List Action) :
    Recounted x (formulasOf x actions g h) (g.run actions) := by
  induction actions generalizing g h with
  | nil => exact hx
  | cons a actions ih => exact ih (hg.apply a) (hx.apply hg a)

/-! ## The turn in a frame -/

/-- The number that an input shows: zero without a source, and when the source has no number. -/
def numberOf (g : Graph) (n : Node) (input : String) : Float :=
  ((((n.sourceNamed? input).bind g.cellOf?).bind fun c => c.value.float?).map
    Double.ofSingle).getD 0.0

/-- The variables of a function with the numbers that its inputs show.  Those beyond its arity are
zero. -/
def variablesOf (g : Graph) (n : Node) (arity : Rank) : Formula.Bindings :=
  [("x", g.numberOf n "x"), ("y", if 2 ≤ arity.count then g.numberOf n "y" else 0.0),
    ("z", if 3 ≤ arity.count then g.numberOf n "z" else 0.0)]

/-- An empty output has no number. -/
theorem float?_reading? (g : Graph) (n : Node) (input : String) :
    ((g.reading? n input).bind fun c => c.value.float?) =
      ((n.sourceNamed? input).bind g.cellOf?).bind fun c => c.value.float? := by
  rw [reading?_eq, Option.bind_assoc, Option.bind_assoc]
  refine Option.bind_congr fun a _ => ?_
  cases g.cellOf? a with
  | none => rfl
  | some c => cases hv : c.value <;> simp [Option.filter, Value.isEmpty, Value.kind, Value.float?, hv]

/-- The variables of a turn are those that the graph shows afterwards. -/
theorem Wired.bindings_eq (hg : g.Wired) {n : Node} (hn : g.node? x = some n) (now : Moment)
    (e : Evaluator) :
    e.bindings (n.readings now (supplyOf g.nodes n)) =
      (runNode now g x).variablesOf (n.takeTurn now (supplyOf g.nodes n)).1 e.arity := by
  have hnumber : ∀ input, (((n.readings now (supplyOf g.nodes n)).float? input).map
      Double.ofSingle).getD 0.0 =
        (runNode now g x).numberOf (n.takeTurn now (supplyOf g.nodes n)).1 input := by
    intro input
    rw [numberOf, ← float?_reading?, ← hg.readings_cell hn]
    simp only [Readings.float?, Readings.value?, Option.bind_map]
    rfl
  simp only [Evaluator.bindings, Evaluator.variableNames, List.map_cons, List.map_nil, hnumber,
    variablesOf]
  cases e.arity <;> rfl

/-- After every turn of a function its output shows the number that the formula of the last source
which compiles comes to, or what it showed before when there is none; and the function is without
an error when that source is also the last one of all. -/
theorem formula_after_turn (name : String) (actions : List Action) (frame : Frame) {x : NodeId}
    {m : Node} {e : Evaluator} (hm : (frame.apply (run actions (empty name))).node? x = some m)
    (hb : m.behavior = .function e) :
    let g := run actions (empty name)
    let k := g.inFrame frame.poll frame.read (g.ids.takeWhile (· != x) ++ [x])
    let h := (formulasOf x actions (empty name) .begun).turned
    k.node? x = some m ∧ ∃ n, g.node? x = some n ∧
      (∀ f y, Evaluator.lastFormula? h.applied = some f →
        f.eval (k.variablesOf m e.arity) = .ok y →
          Shows m.ports.firstValue? (.float (Double.toSingle y))) ∧
      ((¬∃ f y, Evaluator.lastFormula? h.applied = some f ∧
        f.eval (k.variablesOf m e.arity) = .ok y) → m.ports.firstValue? = n.ports.firstValue?) ∧
      (e.error = none ↔ ∃ f y, Evaluator.lastFormula? h.applied = some f ∧
        h.applied.head? = some f.source ∧ f.eval (k.variablesOf m e.arity) = .ok y) := by
  intro g k h
  have hg : g.Reachable := ⟨name, actions, rfl⟩
  have hrecounted : Recounted x (formulasOf x actions (empty name) .begun) g :=
    Recounted.run ⟨name, [], rfl⟩ (fun n hn => nomatch hn) actions
  rw [frame.apply_read] at hm
  obtain ⟨n, done, rest, hn, hids, rfl⟩ := exists_turn hg.wired.nodup hm
  have hbefore := (node?_before_turn hg.wired.nodup hids frame.poll frame.read).trans hn
  have hw : (g.inFrame frame.poll frame.read done).Wired :=
    ((hg.wired.withClock frame.read).turns _ done).1
  have hk : k = runNode ((g.withClock frame.read).moment frame.poll)
      (g.inFrame frame.poll frame.read done) x := by
    show g.inFrame _ _ (g.ids.takeWhile (· != x) ++ [x]) = _
    rw [takeWhile_ids hg.wired.nodup hids, inFrame_append]
  obtain ⟨hports, hsound⟩ := hg.standing.steady hn
  obtain ⟨posts, hjudged, heffect⟩ := (hrecounted n hn).judged_takeTurn hports hsound hb
  rw [hw.bindings_eq hbefore, ← hk] at hjudged
  refine ⟨?_, n, hn, fun f y hlast hvalue => ?_, fun hnone => ?_, hjudged.content⟩
  · rw [hk, node?_runNode hbefore, if_pos rfl]
  · exact heffect.published _ (hjudged.posted f y hlast hvalue)
  · exact heffect.silent (hjudged.silent hnone)

/-- A function that has a value on its first variable, and then a formula that does not compile. -/
def misspelt : List Action :=
  [.create .value, .create .function, .step Poll.none 0, .connect ⟨0⟩ 0 ⟨2⟩ 0,
    .set ⟨2⟩ (.formula "(")]

end Graph

end Patchbay

/-! ## With the standard engine -/

namespace Patchbay.Graph

/-- The next turn reports the new formula and evaluates the old one. -/
theorem formula_after_turn_of_misspelt :
    let g := run misspelt (empty "misspelt")
    let k := g.inFrame Poll.none (·.step 0) (g.ids.takeWhile (· != ⟨2⟩) ++ [⟨2⟩])
    ∃ m e, ((Frame.step Poll.none 0).apply g).node? ⟨2⟩ = some m ∧ m.behavior = .function e ∧
      e.error ≠ none ∧
      Shows m.ports.firstValue? (.float (Double.toSingle (k.numberOf m "x"))) := by
  intro g k
  have htype : (((Frame.step Poll.none 0).apply g).node? ⟨2⟩).map Node.type = some .function := by
    decide +kernel
  obtain ⟨m, hm, htype⟩ := Option.map_eq_some_iff.mp htype
  obtain ⟨e, hb⟩ := Node.exists_function htype
  have happlied : (formulasOf ⟨2⟩ misspelt (empty "misspelt") .begun).turned.applied = ["(", "x"] :=
    by decide +kernel
  have hlast : Evaluator.lastFormula? ["(", "x"] = some ⟨"x", .variable "x"⟩ := by rfl
  obtain ⟨-, n, -, hshows, -, herror⟩ :=
    formula_after_turn "misspelt" misspelt (.step Poll.none 0) hm hb
  rw [happlied] at hshows herror
  refine ⟨m, e, hm, hb, fun hnone => ?_, hshows _ _ hlast rfl⟩
  obtain ⟨f, -, hf, hhead, -⟩ := herror.mp hnone
  cases hlast.symm.trans hf
  exact absurd hhead (by decide)

end Patchbay.Graph
