import Patchbay.Proofs.Evolution
import Patchbay.Proofs.Formulas
/-!
Which values are taken back.

An output is empty until its node posts something.  After that it is empty
again only if the node posts an empty value, and only joiners and meshes do
that: a joiner when it has no list left, a mesh when another file is to be
loaded.  All others post what they have computed, or a value that they read,
and an empty value is not read.
-/

namespace Patchbay

/-- The types of the nodes that take values back. -/
def NodeType.withdraws : NodeType → Bool
  | .listJoin | .mesh => true
  | _ => false

def Post.value : Post → Value
  | publish _ v => v
  | write _ v => v

/-- None of the posts takes a value back. -/
def Filled (posts : List Post) : Prop := ∀ p ∈ posts, p.value.isEmpty = false

theorem filled_nil : Filled [] := fun _ hp => nomatch hp

theorem filled_singleton {p : Post} (h : p.value.isEmpty = false) : Filled [p] := fun _ hq => by
  rw [List.mem_singleton.mp hq]
  exact h

/-- Posts of a value that may be missing. -/
theorem filled_toList {α : Type} {f : α → Post} (h : ∀ a, (f a).value.isEmpty = false)
    (x : Option α) : Filled (x.map f).toList := by
  cases x with
  | none => exact filled_nil
  | some a => exact filled_singleton (h a)

/-- Nothing empty is read. -/
def Readings.Filled (r : Readings) : Prop :=
  ∀ name v, r.value? name = some v → v.isEmpty = false

/-! ## Posts of the types -/

theorem Scalar.isEmpty_ofBits (s : Scalar) (bits : UInt32) : (s.ofBits bits).isEmpty = false := by
  cases s <;> rfl

namespace Operation

theorem isEmpty_apply {o : Operation} {a b v : Value} (h : o.apply a b = .ok v) :
    v.isEmpty = false := by
  unfold apply at h
  split at h
  case h_2 x y =>
    cases hx : o.onInt x y with
    | ok z =>
        rw [hx] at h
        cases h
        rfl
    | error e =>
        rw [hx] at h
        exact nomatch h
  case h_3 x y =>
    cases hx : o.onUInt x y with
    | ok z =>
        rw [hx] at h
        cases h
        rfl
    | error e =>
        rw [hx] at h
        exact nomatch h
  case h_13 => exact nomatch h
  all_goals
    cases h
    rfl

theorem isEmpty_combine {o : Operation} {a b : Option Value} {v : Value}
    (ha : ∀ x, a = some x → x.isEmpty = false) (hb : ∀ y, b = some y → y.isEmpty = false)
    (h : o.combine a b = .ok v) : v.isEmpty = false := by
  cases a with
  | none =>
      cases b with
      | none => exact nomatch h
      | some y =>
          cases h
          exact hb _ rfl
  | some x =>
      cases b with
      | none =>
          cases h
          exact ha _ rfl
      | some y => exact isEmpty_apply h

end Operation

theorem Value.isEmpty_element? {v w : Value} {i : Nat} (h : v.element? i = some w) :
    w.isEmpty = false := by
  unfold element? at h
  split at h
  case h_7 => exact nomatch h
  all_goals
    obtain ⟨x, -, rfl⟩ := Option.map_eq_some_iff.mp h
    rfl

theorem isEmpty_of_generateList [Formula.Engine] {kind : ElementKind} {slots : FormulaSlots}
    {size : Extents} {extra : List (String × Float)} {v : Value}
    (h : generateList kind slots size extra = .ok v) : v.isEmpty = false := by
  unfold generateList at h
  split at h
  · exact nomatch h
  · split at h
    · cases h
      cases kind <;> rfl
    · exact nomatch h

section Types
variable {r : Readings}

theorem Arithmetic.filled_finish (a : Arithmetic) (hr : r.Filled) : Filled (a.finish r).2 := by
  unfold finish
  split
  · next h => exact filled_singleton (Operation.isEmpty_combine (hr "A") (hr "B") h)
  · exact filled_nil

theorem Evaluator.filled_finish [Formula.Engine] (e : Evaluator) : Filled (e.finish r).2 := by
  unfold finish
  split
  · exact filled_nil
  · split
    · exact filled_singleton rfl
    · exact filled_nil

theorem Generator.Turned.filled [Formula.Engine] {g next : Generator} {posts : List Post}
    (h : g.Turned r next posts) : Filled posts := by
  cases h with
  | produced _ _ _ hmade => exact filled_singleton (isEmpty_of_generateList hmade)
  | _ => exact filled_nil

theorem Selector.filled_finish (s : Selector) : Filled (s.finish r).2 := by
  unfold finish missing
  split
  · exact filled_nil
  · split
    · exact filled_nil
    · split
      · next h => exact filled_singleton (Value.isEmpty_element? h)
      · exact filled_nil

theorem filled_relayed (input : String) (refresh : Bool) (hr : r.Filled) :
    Filled (relayed input refresh r).2 := by
  unfold relayed
  cases hc : r.cell input with
  | none => exact filled_nil
  | some c =>
      have hvalue : c.value.isEmpty = false := hr input c.value (by rw [Readings.value?, hc]; rfl)
      simp only
      split
      · exact filled_singleton hvalue
      · split
        · exact filled_singleton hvalue
        · exact filled_nil

theorem Mover.filled_finish (m : Mover) : Filled (m.finish r).2 := by
  have hplaced : ∀ (m : Mover) (p : Vec3), Filled (m.placed p).2 := fun m p => filled_singleton rfl
  unfold finish
  split
  · exact hplaced _ _
  · exact hplaced _ _
  · exact hplaced _ _
  · exact hplaced _ _
  · unfold finishSpline
    split
    · exact filled_nil
    · simp only
      split
      · exact hplaced _ _
      · exact filled_nil

/-- The posts of a node that takes nothing back. -/
theorem Behavior.filled_finish [Formula.Engine] (now : Moment) (id : NodeId) {b : Behavior}
    (hb : b.type.withdraws = false) (hr : r.Filled) : Filled ((b.plan now id).finish r).2 := by
  cases b with
  | value s =>
      show Filled (s.plan.finish r).2
      unfold Constant.plan
      split
      · exact filled_nil
      · exact filled_singleton (Scalar.isEmpty_ofBits _ _)
  | vector s => exact filled_toList (fun _ => rfl) s.pending
  | color s => exact filled_toList (fun _ => rfl) s.pending
  | math s => exact s.filled_finish hr
  | function s => exact s.resized.recompiled.filled_finish
  | list s => exact (s.turned r).filled
  | listAccess s => exact s.filled_finish
  | listJoin s => exact nomatch hb
  | time => exact filled_singleton rfl
  | display s => exact filled_relayed relayInput s.refresh hr
  | feedback s => exact filled_relayed relayInput s.refresh hr
  | mesh s => exact nomatch hb
  | camera s =>
      intro p hp
      rcases List.mem_cons.mp hp with rfl | hp
      · rfl
      · rw [List.mem_singleton.mp hp]
        rfl
  | render s => exact filled_singleton rfl
  | path s => exact s.switched.filled_finish
  | worldPos s => exact filled_toList (fun _ => rfl) s.pending

end Types

/-! ## Turns -/

namespace Directory

/-- After a post of a value a cell that is empty has not been posted to. -/
theorem cell?_post_of_filled {d : Directory} {p : Post} (hp : p.value.isEmpty = false) {j : Nat}
    {c : Cell} (h : (d.post p).cell? j = some c) (hempty : c.value.isEmpty = true) :
    d.cell? j = some c := by
  cases p with
  | publish i v =>
      have hcell := cell?_modifyCell d i j (·.publish v)
      change (d.modifyCell i (·.publish v)).cell? j = some c at h
      rw [hcell] at h
      split at h
      · obtain ⟨c₀, hc₀, rfl⟩ := Option.map_eq_some_iff.mp h
        unfold Cell.publish at hempty ⊢
        split at hempty
        · next hsame => rw [if_pos hsame, hc₀]
        · exact absurd (hempty.symm.trans hp) (by decide)
      · exact h
  | write i v =>
      have hcell := cell?_modifyCell d i j (·.set v)
      change (d.modifyCell i (·.set v)).cell? j = some c at h
      rw [hcell] at h
      split at h
      · obtain ⟨c₀, -, rfl⟩ := Option.map_eq_some_iff.mp h
        exact absurd (hempty.symm.trans hp) (by decide)
      · exact h

theorem cell?_posts_of_filled {posts : List Post} (hposts : Filled posts) {d : Directory} {j : Nat}
    {c : Cell} (h : (posts.foldl post d).cell? j = some c) (hempty : c.value.isEmpty = true) :
    d.cell? j = some c := by
  induction posts generalizing d with
  | nil => exact h
  | cons p posts ih =>
      have hrest : Filled posts := fun q hq => hposts q (List.mem_cons_of_mem p hq)
      exact cell?_post_of_filled (hposts p List.mem_cons_self) (ih hrest h) hempty

end Directory

variable [Formula.Engine]

namespace Node

/-- A node reads nothing empty. -/
theorem filled_readings (now : Moment) (supply : Supply) (n : Node) :
    (n.readings now supply).Filled := by
  intro name v hv
  obtain ⟨c, hc, rfl⟩ := Option.map_eq_some_iff.mp hv
  obtain ⟨i, -, hat⟩ := Option.bind_eq_some_iff.mp (show Supply.named? _ _ _ = some c from hc)
  unfold Supply.at? at hat
  split at hat
  · simpa using (Option.filter_eq_some_iff.mp hat).2
  · exact nomatch hat

/-- After the turn of a node that takes nothing back an empty output was empty before. -/
theorem cell?_takeTurn_of_empty (now : Moment) (supply : Supply) {n : Node} (hn : n.ports.Indexed)
    (htype : n.type.withdraws = false) {j : Nat} {c : Cell}
    (h : (n.takeTurn now supply).1.ports.cell? j = some c) (hempty : c.value.isEmpty = true) :
    (n.ports.cell? j).map Cell.value = some c.value := by
  rw [takeTurn_node] at h
  have hposts : Filled (n.outcome now supply).2 :=
    Behavior.filled_finish now n.id htype (n.filled_readings now supply)
  have hheld := Directory.cell?_posts_of_filled hposts h hempty
  rw [cell?_heldTurn now supply hn] at hheld
  obtain ⟨c₀, hc₀, rfl⟩ := Option.map_eq_some_iff.mp hheld
  rw [hc₀]
  rfl

end Node

namespace Graph

/-- What an address stands for is the output of a node that takes values back. -/
def Withdraws (g : Graph) (a : Address) : Prop :=
  ∃ p, g.node? a.producer = some p ∧ p.type.withdraws = true

/-- Nodes that keep their type go on taking values back or not. -/
theorem Withdraws.of_node {g g' : Graph} {a : Address} (h : g.Withdraws a)
    (hnode : ∀ p, g.node? a.producer = some p →
      ∃ p', g'.node? a.producer = some p' ∧ p'.type = p.type) : g'.Withdraws a := by
  obtain ⟨p, hp, htype⟩ := h
  obtain ⟨p', hp', hsame⟩ := hnode p hp
  exact ⟨p', hp', by rw [hsame]; exact htype⟩

theorem Withdraws.change {g g' : Graph} {id : NodeId} {f : Node → Node} {a : Address}
    (h : g.Withdraws a)
    (hnode : ∀ x, g'.node? x = if x = id then (g.node? x).map f else g.node? x)
    (hf : ∀ n, (f n).type = n.type) : g'.Withdraws a := by
  refine h.of_node fun p hp => ?_
  rw [hnode, hp]
  split
  · exact ⟨f p, rfl, hf p⟩
  · exact ⟨p, rfl, rfl⟩

theorem Withdraws.turn {g : Graph} {id : NodeId} {n : Node} (hn : g.node? id = some n)
    (now : Moment) {a : Address} (h : g.Withdraws a) : (runNode now g id).Withdraws a := by
  refine h.of_node fun p hp => ?_
  rw [node?_runNode hn, hp]
  split
  · next hid =>
      rw [hid, hn] at hp
      cases hp
      exact ⟨_, rfl, Node.takeTurn_type now _ n⟩
  · exact ⟨p, rfl, rfl⟩

/-- In a turn a cell is flagged with a value, or keeps its value, or its node takes values back. -/
theorem Wired.filled_or_same {g : Graph} (h : g.Wired) {id : NodeId} {n : Node}
    (hn : g.node? id = some n) (now : Moment) {a : Address} {c : Cell}
    (hc : (runNode now g id).cellOf? a = some c) :
    (a.producer = id ∧ c.dirty = true ∧ c.value.isEmpty = false) ∨
      (g.cellOf? a).map Cell.value = some c.value ∨
        c.value.isEmpty = true ∧ (runNode now g id).Withdraws a := by
  by_cases hp : a.producer = id
  · obtain ⟨old, hold, hfollows⟩ := h.follows_runNode hn now hp hc
    rcases hfollows with hdirty | hsame
    · cases hempty : c.value.isEmpty with
      | false => exact Or.inl ⟨hp, hdirty, rfl⟩
      | true =>
          right
          cases htype : n.type.withdraws with
          | true => exact Or.inr ⟨rfl, Withdraws.turn hn now ⟨n, hp ▸ hn, htype⟩⟩
          | false =>
              left
              rw [cellOf?, hp, node?_runNode hn, if_pos rfl] at hc
              rw [cellOf?, hp, hn]
              exact Node.cell?_takeTurn_of_empty now _ (h.ports_indexed hn) htype hc hempty
    · exact Or.inr (Or.inl (by rw [hold, Option.map_some, hsame]))
  · rw [cellOf?_runNode hn now hp] at hc
    exact Or.inr (Or.inl (by rw [hc]; rfl))

end Graph

end Patchbay
