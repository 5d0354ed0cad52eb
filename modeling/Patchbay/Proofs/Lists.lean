import Patchbay.Proofs.Evolution
import Patchbay.Proofs.Formulas
/-!
The state of a node that makes lists, in its graph.

Wiring is of no interest to such a node, and only four settings concern it.
So what its state satisfies is kept by all edits when these settings keep it,
and its turns are those of `Generator.Turned`.
-/

namespace Patchbay

variable [Formula.Engine]

/-- A property of the state that settings keep. -/
structure Generator.Durable (P : Generator → Prop) : Prop where
  element : ∀ {s} k, P s → P (s.setElement k)
  dimension : ∀ {s} r, P s → P (s.setDimension r)
  names : ∀ {s} names, P s → P (s.setVariables names)
  expression : ∀ {s} component source, P s → P (s.setExpression component source)

namespace Behavior

/-- The behavior satisfies `P` if it is one of a node that makes lists. -/
def OfList (P : Generator → Prop) : Behavior → Prop
  | list s => P s
  | _ => True

variable {P : Generator → Prop} {b : Behavior}

theorem OfList.connected (h : b.OfList P) (input : String) (p : ProducerInfo) :
    (b.connected input p).OfList P := by
  cases b with
  | list s => exact h
  | _ => trivial

theorem OfList.disconnected (h : b.OfList P) (input : String) :
    (b.disconnected input).OfList P := by
  cases b with
  | list s => exact h
  | _ => trivial

theorem OfList.set (hP : Generator.Durable P) (h : b.OfList P) (s : Setting) :
    (s.onBehavior b).OfList P := by
  cases b with
  | list g =>
      cases s with
      | element k => exact hP.element k h
      | dimension r => exact hP.dimension r h
      | listVariables names => exact hP.names names h
      | componentFormula component source => exact hP.expression component source h
      | _ => exact h
  | _ => cases s <;> trivial

theorem ofList_of_type (h : b.type ≠ .list) : b.OfList P := by
  cases b with
  | list s => exact absurd rfl h
  | _ => trivial

theorem disconnectedAll_list (s : Generator) (lost : List Dropped) :
    (list s).disconnectedAll lost = list s := by
  unfold disconnectedAll
  induction lost with
  | nil => rfl
  | cons d lost ih => exact ih

end Behavior

namespace Node

/-- What the state of a list satisfies together with the value on its first output. -/
def OfList (P : Option Value → Generator → Prop) (n : Node) : Prop :=
  n.behavior.OfList (P n.ports.firstValue?)

theorem OfList.state {P : Option Value → Generator → Prop} {n : Node} {s : Generator}
    (h : n.OfList P) (hs : n.behavior = .list s) : P n.ports.firstValue? s := by
  unfold OfList at h
  rw [hs] at h
  exact h

theorem durable_ofList {P : Option Value → Generator → Prop}
    (hP : ∀ out, Generator.Durable (P out)) : Durable (OfList P) :=
  durable_of_behavior (B := fun b out => b.OfList (P out)) (fun input p h => h.connected input p)
    (fun input h => h.disconnected input) fun s h => Behavior.OfList.set (hP _) h s

section Turns
variable {now : Moment} {supply : Supply} {n : Node} {s : Generator}

theorem outcome_of_list (hs : n.behavior = .list s) :
    n.outcome now supply =
      (.list (s.plan.finish (n.readings now supply)).1,
        (s.plan.finish (n.readings now supply)).2) := by
  unfold outcome plan
  rw [hs]
  rfl

theorem behavior_of_list (hs : n.behavior = .list s) :
    (n.takeTurn now supply).1.behavior = .list (s.plan.finish (n.readings now supply)).1 := by
  rw [takeTurn_node, outcome_of_list hs]
  exact Behavior.disconnectedAll_list _ _

theorem posts_of_list (hs : n.behavior = .list s) :
    (n.outcome now supply).2 = (s.plan.finish (n.readings now supply)).2 :=
  congrArg Prod.snd (outcome_of_list hs)

/-- A list has an output. -/
theorem Sound.exists_cell_of_list (h : n.Sound) (hs : n.behavior = .list s) :
    ∃ c, n.ports.cell? 0 = some c := by
  refine h.exists_cell ?_
  unfold type
  rw [hs]
  exact Nat.one_pos

/-- What a list satisfies after its turn. -/
theorem ofList_takeTurn {Q : Generator → Prop}
    (h : ∀ s, n.behavior = .list s → Q (s.plan.finish (n.readings now supply)).1) :
    (n.takeTurn now supply).1.behavior.OfList Q := by
  cases hb : n.behavior with
  | list s =>
      rw [behavior_of_list hb]
      exact h s hb
  | _ =>
      refine Behavior.ofList_of_type fun hlist => ?_
      have htype := takeTurn_type now supply n
      unfold type at htype
      rw [hlist, hb] at htype
      exact nomatch htype

end Turns

end Node

/-! ## What a list reads -/

namespace Generator

variable {r r' : Readings} (h : r.cell = r'.cell)
include h

theorem sizes_congr (s : Generator) : s.sizes r = s.sizes r' := by
  obtain ⟨cell, refused⟩ := r
  obtain ⟨cell', refused'⟩ := r'
  cases h
  rfl

theorem values_congr (s : Generator) : s.values r = s.values r' := by
  obtain ⟨cell, refused⟩ := r
  obtain ⟨cell', refused'⟩ := r'
  cases h
  rfl

theorem reuses_congr (s : Generator) : s.reuses r = s.reuses r' := by
  rw [reuses, reuses, sizes_congr h, values_congr h]

theorem made_congr (s : Generator) : s.made r = s.made r' := by
  rw [made, made, sizes_congr h, values_congr h]

end Generator

namespace Graph

/-- What the inputs of a node show. -/
def readingsOf (g : Graph) (n : Node) : Readings := ⟨g.reading? n, fun _ => false⟩

theorem value?_readingsOf (g : Graph) (n : Node) (name : String) :
    (g.readingsOf n).value? name =
      (n.sourceNamed? name).bind fun a => ((g.cellOf? a).map Cell.value).filter fun v => !v.isEmpty := by
  show (g.reading? n name).map Cell.value = _
  rw [reading?_eq, Option.map_bind]
  exact Option.bind_congr fun a _ => Cell.value_filter (g.cellOf? a)

/-- What is read in a turn is what the inputs show afterwards. -/
theorem Wired.cell_readingsOf {g : Graph} (h : g.Wired) {id : NodeId} {n : Node}
    (hn : g.node? id = some n) (now : Moment) :
    (n.readings now (supplyOf g.nodes n)).cell =
      ((runNode now g id).readingsOf (n.takeTurn now (supplyOf g.nodes n)).1).cell :=
  funext fun name => h.readings_cell hn now name

end Graph

end Patchbay
