import Patchbay.Formula.Basic
import Patchbay.Proofs.Gates
import Patchbay.Proofs.ListCache
import Patchbay.Proofs.Withdrawals
/-!
When a joiner shows what it reads.

A joiner computes only when a list that it reads is flagged, when it has been
told of a change of its wiring, or when it loses a source in the turn.  It is
told of nothing else, so it does not notice that a source has taken its value
back, and since a scene does not keep the mark of a change, it does not
notice after a load that its sources are gone.  `Graph.Joins` lists the ways
in which a joiner can stand between its turns; every edit and every turn
keeps to the list.  In its turn a joiner then has its lists on its output
unless one of these two things has happened (`Graph.joined_after_turn`).
-/

namespace Patchbay

/-! ## Lists -/

theorem Value.kind_of_append? {a b v : Value} (h : a.append? b = some v) : a.kind = b.kind := by
  unfold append? at h
  split at h
  · rfl
  · rfl
  · rfl
  · rfl
  · rfl
  · rfl
  · exact nomatch h

theorem Value.exists_append? {a b : Value} (ha : KindSet.lists.contains a.kind = true)
    (h : a.kind = b.kind) : ∃ v, a.append? b = some v := by
  cases a with
  | floatList | intList | uintList | vector2List | vector3List | vector4List =>
      cases b with
      | floatList | intList | uintList | vector2List | vector3List | vector4List =>
          first | exact ⟨_, rfl⟩ | exact nomatch h
      | _ => exact nomatch h
  | _ => exact nomatch ha

/-! ## The turn of a joiner -/

namespace Joiner

theorem forall_inputNames {P : String → Prop} :
    (∀ name ∈ NodeType.listJoin.inputNames, P name) ↔ P firstInput ∧ P secondInput :=
  List.forall_mem_cons.trans (and_congr_right fun _ => List.forall_mem_singleton)

theorem mem_firstInput : firstInput ∈ NodeType.listJoin.inputNames := List.mem_cons_self

theorem mem_secondInput : secondInput ∈ NodeType.listJoin.inputNames :=
  List.mem_cons_of_mem _ List.mem_cons_self

/-- The values `a` and `b` are joined on the output without an error, or it is reported that they
cannot be. -/
def Shows (j : Joiner) (a b out : Option Value) : Prop :=
  match join a b with
  | .ok v => (∃ o, out = some o ∧ o.Agrees v) ∧ j.error = none
  | .error e => j.error = some e

/-- What a joiner has to show after a turn in which it reads `a` and `b`: both lists one after the
other when they are of one kind, the one that is there when there is only one, and nothing when
there is none, each time without an error; lists of different kinds are reported, and the output is
left alone. -/
def Reflects (j : Joiner) (a b before after : Option Value) : Prop :=
  match a, b with
  | some a, some b =>
    if a.kind = b.kind then
      ∃ v, a.append? b = some v ∧ (∃ o, after = some o ∧ o.Agrees v) ∧ j.error = none
    else after = before ∧ ∃ e, j.error = some e
  | some a, none => (∃ o, after = some o ∧ o.Agrees a) ∧ j.error = none
  | none, some b => (∃ o, after = some o ∧ o.Agrees b) ∧ j.error = none
  | none, none => (∃ o, after = some o ∧ o.Agrees .empty) ∧ j.error = none

variable {j : Joiner} {r : Readings}

theorem Shows.reflects {a b before after : Option Value} (h : j.Shows a b after)
    (ha : ∀ v, a = some v → KindSet.lists.contains v.kind = true)
    (hkeep : ∀ e, join a b = .error e → after = before) : j.Reflects a b before after := by
  unfold Shows at h
  cases a with
  | none =>
      cases b with
      | none => exact h
      | some b => exact h
  | some a =>
      cases b with
      | none => exact h
      | some b =>
          simp only [Reflects]
          by_cases hkind : a.kind = b.kind
          · rw [if_pos hkind]
            obtain ⟨v, hv⟩ := Value.exists_append? (ha a rfl) hkind
            simp only [join, hv] at h
            exact ⟨v, hv, h⟩
          · rw [if_neg hkind]
            have hnone : a.append? b = none :=
              Option.eq_none_iff_forall_ne_some.mpr fun v hv => hkind (Value.kind_of_append? hv)
            simp only [join, hnone] at h hkeep
            exact ⟨hkeep _ rfl, _, h⟩

theorem finish_of_idle (h : j.isDue r = false) : j.finish r = (j, []) := by
  unfold finish
  rw [h]
  rfl

/-- A joiner that has something to compute publishes the joined lists, or reports why not. -/
theorem finish_of_due (h : j.isDue r = true) :
    (∃ v, join (r.value? firstInput) (r.value? secondInput) = .ok v ∧
        j.finish r = (⟨false, none⟩, [.publish 0 v])) ∨
      ∃ e, join (r.value? firstInput) (r.value? secondInput) = .error e ∧
        j.finish r = (⟨false, some e⟩, []) := by
  unfold finish
  rw [if_pos h]
  cases hjoin : join (r.value? firstInput) (r.value? secondInput) with
  | ok v => exact Or.inl ⟨v, rfl, rfl⟩
  | error e => exact Or.inr ⟨e, rfl, rfl⟩

/-- Without anything to compute nothing has been taken away, and no change is marked. -/
theorem of_idle (h : j.isDue r = false) :
    j.refresh = false ∧ ∀ name ∈ NodeType.listJoin.inputNames,
      r.changed name = false ∧ r.refused name = false := by
  simp only [isDue, Bool.or_eq_false_iff] at h
  obtain ⟨⟨⟨⟨hfirst, hsecond⟩, hrefresh⟩, hfirst'⟩, hsecond'⟩ := h
  exact ⟨hrefresh, forall_inputNames.mpr ⟨⟨hfirst, hfirst'⟩, hsecond, hsecond'⟩⟩

end Joiner

variable [Formula.Engine]

namespace Behavior

/-- The behavior satisfies `P` if it is one of a joiner. -/
def OfJoiner (P : Joiner → Prop) : Behavior → Prop
  | listJoin j => P j
  | _ => True

variable {P : Joiner → Prop}

theorem OfJoiner.imp {Q : Joiner → Prop} {b : Behavior} (h : b.OfJoiner P) (hPQ : ∀ j, P j → Q j) :
    b.OfJoiner Q := by
  cases b with
  | listJoin j => exact hPQ j h
  | _ => trivial

theorem OfJoiner.state {b : Behavior} {j : Joiner} (h : b.OfJoiner P) (hj : b = listJoin j) : P j := by
  subst hj
  exact h

theorem ofJoiner_of_type {b : Behavior} (h : b.type ≠ .listJoin) : b.OfJoiner P := by
  cases b with
  | listJoin j => exact absurd rfl h
  | _ => trivial

theorem ofJoiner_self (b : Behavior) : b.OfJoiner fun j => b = listJoin j := by
  cases b with
  | listJoin j => rfl
  | _ => trivial

theorem refresh_disconnected (input : String) (b : Behavior) :
    (b.disconnected input).OfJoiner fun j => j.refresh = true := by
  cases b with
  | listJoin j => rfl
  | _ => trivial

theorem refresh_connected (input : String) (p : ProducerInfo) (b : Behavior) :
    (b.connected input p).OfJoiner fun j => j.refresh = true := by
  cases b with
  | listJoin j => rfl
  | _ => trivial

theorem ofJoiner_set (s : Setting) (b : Behavior) :
    (s.onBehavior b).OfJoiner fun j => b = listJoin j := by
  cases b with
  | listJoin j => cases s <;> rfl
  | _ => cases s <;> trivial

theorem disconnectedAll_listJoin (j : Joiner) (lost : List Dropped) :
    (listJoin j).disconnectedAll lost = listJoin (if lost = [] then j else j.rewired) := by
  unfold disconnectedAll
  induction lost generalizing j with
  | nil => rfl
  | cons d lost ih =>
      refine (ih j.rewired).trans ?_
      cases lost with
      | nil => rfl
      | cons d' lost => rfl

end Behavior

namespace Node

/-- Some input of the joiner has a source. -/
def Fed (n : Node) : Prop :=
  ∃ name ∈ NodeType.listJoin.inputNames, (n.sourceNamed? name).isSome = true

section Turns
variable {now : Moment} {supply : Supply} {n : Node} {j : Joiner} (hj : n.behavior = .listJoin j)
include hj

theorem plan_of_joiner : n.plan now = j.plan.map .listJoin := by
  unfold plan
  rw [hj]
  rfl

theorem outcome_of_joiner :
    n.outcome now supply =
      (.listJoin (j.finish (n.readings now supply)).1, (j.finish (n.readings now supply)).2) := by
  unfold outcome
  rw [plan_of_joiner hj]
  rfl

theorem resizedTurn_of_joiner : n.resizedTurn now = ⟨n.ports.clearDirty, []⟩ := by
  unfold resizedTurn
  rw [plan_of_joiner hj]
  rfl

/-- What a joiner reads is of a list kind. -/
theorem kind_of_joiner {name : String} (hname : name ∈ NodeType.listJoin.inputNames) {c : Cell}
    (hc : (n.readings now supply).cell name = some c) : KindSet.lists.contains c.kind = true := by
  have hgate : (⟨name, .lists⟩ : Gate) ∈ (n.plan now).gates := by
    rw [plan_of_joiner hj]
    exact List.mem_map_of_mem (f := fun name => (⟨name, .lists⟩ : Gate)) hname
  exact Turn.contains_of_named?_holdAll hgate hc

/-- A joiner that has nothing to compute loses no source. -/
theorem dropped_of_idle (hidle : j.isDue (n.readings now supply) = false) :
    (n.heldTurn now supply).dropped = [] := by
  rw [List.eq_nil_iff_forall_not_mem]
  intro x hx
  have hname : x.name ∈ NodeType.listJoin.inputNames := by
    rcases Turn.mem_dropped_holdAll hx with hx | ⟨hx, -⟩
    · rw [resizedTurn_of_joiner hj] at hx
      exact nomatch hx
    · rw [plan_of_joiner hj] at hx
      exact hx
  have hrefused : (n.readings now supply).refused x.name = true := by
    show ((n.heldTurn now supply).dropped.drop (n.resizedTurn now).dropped.length).any _ = true
    rw [resizedTurn_of_joiner hj]
    exact List.any_eq_true.mpr ⟨x, hx, by simp⟩
  rw [((Joiner.of_idle hidle).2 x.name hname).2] at hrefused
  exact nomatch hrefused

theorem behavior_of_joiner :
    (n.takeTurn now supply).1.behavior =
      .listJoin (if (n.heldTurn now supply).dropped = [] then
        (j.finish (n.readings now supply)).1 else (j.finish (n.readings now supply)).1.rewired) := by
  rw [takeTurn_node, outcome_of_joiner hj]
  exact Behavior.disconnectedAll_listJoin _ _

theorem Sound.exists_cell_of_joiner (h : n.Sound) : ∃ c, n.ports.cell? 0 = some c := by
  refine h.exists_cell ?_
  unfold type
  rw [hj]
  exact Nat.one_pos

/-- In its turn a joiner that has something to compute shows what it reads; when it cannot join
what it reads it leaves its output alone. -/
theorem shows_of_due (hn : n.ports.Indexed) (hs : n.Sound)
    (hdue : j.isDue (n.readings now supply) = true) :
    ∃ j', (n.takeTurn now supply).1.behavior = .listJoin j' ∧
      j'.Shows ((n.readings now supply).value? Joiner.firstInput)
        ((n.readings now supply).value? Joiner.secondInput)
        (n.takeTurn now supply).1.ports.firstValue? ∧
      ∀ e, Joiner.join ((n.readings now supply).value? Joiner.firstInput)
          ((n.readings now supply).value? Joiner.secondInput) = .error e →
        (n.takeTurn now supply).1.ports.firstValue? = n.ports.firstValue? := by
  refine ⟨_, behavior_of_joiner hj, ?_, ?_⟩
  · have hshows : (j.finish (n.readings now supply)).1.Shows
        ((n.readings now supply).value? Joiner.firstInput)
        ((n.readings now supply).value? Joiner.secondInput)
        (n.takeTurn now supply).1.ports.firstValue? := by
      unfold Joiner.Shows
      rcases Joiner.finish_of_due hdue with ⟨v, hjoin, hfinish⟩ | ⟨e, hjoin, hfinish⟩
      · rw [hjoin, hfinish]
        obtain ⟨c, hc⟩ := hs.exists_cell_of_joiner hj
        refine ⟨firstValue?_of_publish hn hc ?_, rfl⟩
        rw [outcome_of_joiner hj, hfinish]
      · rw [hjoin, hfinish]
    split
    · exact hshows
    · exact hshows
  · intro e herror
    refine firstValue?_of_silent hn ?_
    rcases Joiner.finish_of_due hdue with ⟨v, hjoin, -⟩ | ⟨_, -, hfinish⟩
    · rw [hjoin] at herror
      exact nomatch herror
    · rw [outcome_of_joiner hj, hfinish]

/-- The turn of a joiner that has nothing to compute changes neither its state nor its sources nor
its output. -/
theorem takeTurn_of_idle (hn : n.ports.Indexed) (hidle : j.isDue (n.readings now supply) = false) :
    (n.takeTurn now supply).1.behavior = .listJoin j ∧
      (n.takeTurn now supply).1.ports.firstValue? = n.ports.firstValue? ∧
      ∀ name, (n.takeTurn now supply).1.sourceNamed? name = n.sourceNamed? name := by
  have hdropped := dropped_of_idle hj hidle
  have hfinish := Joiner.finish_of_idle hidle
  refine ⟨?_, ?_, sourceNamed?_congr ?_ fun i => ?_⟩
  · rw [behavior_of_joiner hj, if_pos hdropped, hfinish]
  · refine firstValue?_of_silent hn ?_
    rw [outcome_of_joiner hj, hfinish]
  · rw [takeTurn_inputNames, plan_of_joiner hj]
    rfl
  · apply Option.ext
    intro a
    have hlost : (n.takeTurn now supply).2 = [] := hdropped
    rw [takeTurn_source_iff now supply hn, hlost]
    simp

end Turns

/-- What a joiner satisfies after its turn. -/
theorem ofJoiner_takeTurn {now : Moment} {supply : Supply} {n : Node} {P : Joiner → Prop}
    (h : ∀ j, n.behavior = .listJoin j → (n.takeTurn now supply).1.behavior.OfJoiner P) :
    (n.takeTurn now supply).1.behavior.OfJoiner P := by
  cases hb : n.behavior with
  | listJoin j => exact h j hb
  | _ =>
      refine Behavior.ofJoiner_of_type fun hjoiner => ?_
      have htype := takeTurn_type now supply n
      unfold type at htype
      rw [hjoiner, hb] at htype
      exact nomatch htype

/-! ## Joiners without sources -/

theorem fed_congr {n m : Node} (h : ∀ name, m.sourceNamed? name = n.sourceNamed? name) :
    m.Fed ↔ n.Fed := by
  unfold Fed
  simp only [h]

/-- A joiner without sources is told of it, or has nothing on its output and no error. -/
def Unfed (n : Node) : Prop :=
  n.behavior.OfJoiner fun j =>
    n.Fed ∨ j.refresh = true ∨
      (∃ o, n.ports.firstValue? = some o ∧ o.Agrees .empty) ∧ j.error = none

/-- Seen as joiners, the second node is told of a change, or it is as the first one. -/
def Rejoins (n m : Node) : Prop :=
  m.behavior.OfJoiner fun j => j.refresh = true ∨ n.behavior = .listJoin j ∧ m.ports = n.ports

theorem rejoins_refl (n : Node) : n.Rejoins n :=
  n.behavior.ofJoiner_self.imp fun _ hj => Or.inr ⟨hj, rfl⟩

theorem Rejoins.trans {n m k : Node} (h : n.Rejoins m) (h' : m.Rejoins k) : n.Rejoins k := by
  refine h'.imp fun j hj => ?_
  rcases hj with hrefresh | ⟨hj, hports⟩
  · exact Or.inl hrefresh
  · rcases Behavior.OfJoiner.state h hj with hrefresh | ⟨hn, hports'⟩
    · exact Or.inl hrefresh
    · exact Or.inr ⟨hn, hports.trans hports'⟩

theorem rejoins_detach (n : Node) (i : Nat) : n.Rejoins (n.detach i) := by
  unfold detach
  cases n.ports.inputs[i]? with
  | none => exact n.rejoins_refl
  | some p => exact (Behavior.refresh_disconnected p.name n.behavior).imp fun _ => Or.inl

theorem rejoins_attached (e : Edge) (source : Node) (o : OutputPort) (i : InputPort) (n : Node) :
    n.Rejoins (Graph.attachedNode e source o i n) := by
  unfold Rejoins
  rw [Graph.attachedNode_eq]
  exact (Behavior.refresh_connected i.name _ _).imp fun _ => Or.inl

theorem rejoins_set (s : Setting) (n : Node) : n.Rejoins (s.onNode n) := by
  rcases s.onNode_cases n with ⟨_, _, hs⟩ | ⟨_, hs⟩ | hs
  · rw [hs]
    exact n.rejoins_refl
  · rw [hs]
    exact n.rejoins_refl
  · rw [hs]
    exact (Behavior.ofJoiner_set s n.behavior).imp fun _ hj => Or.inr ⟨hj, rfl⟩

theorem Unfed.empty {n : Node} {j : Joiner} (h : n.Unfed) (hj : n.behavior = .listJoin j)
    (hfed : ¬n.Fed) (hrefresh : j.refresh = false) :
    (∃ o, n.ports.firstValue? = some o ∧ o.Agrees .empty) ∧ j.error = none := by
  rcases Behavior.OfJoiner.state h hj with hfed' | htold | hempty
  · exact absurd hfed' hfed
  · rw [hrefresh] at htold
    cases htold
  · exact hempty

theorem Unfed.rejoins {n m : Node} (h : n.Unfed) (hnm : n.Rejoins m) : m.Unfed := by
  refine hnm.imp fun j hj => ?_
  rcases hj with hrefresh | ⟨hj, hports⟩
  · exact Or.inr (Or.inl hrefresh)
  · have hsource : ∀ name, m.sourceNamed? name = n.sourceNamed? name := fun name => by
      rw [sourceNamed?, sourceNamed?, hports]
    rw [fed_congr hsource, hports]
    exact Behavior.OfJoiner.state h hj

/-- A joiner without sources that computes puts nothing on its output, and has no error. -/
theorem empty_of_shows {now : Moment} {supply : Supply} {n : Node} {j : Joiner} {out : Option Value}
    (hfed : ¬(n.takeTurn now supply).1.Fed)
    (h : j.Shows ((n.readings now supply).value? Joiner.firstInput)
      ((n.readings now supply).value? Joiner.secondInput) out) :
    (∃ o, out = some o ∧ o.Agrees .empty) ∧ j.error = none := by
  have hnone : ∀ name ∈ NodeType.listJoin.inputNames, (n.readings now supply).value? name = none := by
    intro name hname
    have hsource : (n.takeTurn now supply).1.sourceNamed? name = none := by
      cases hs : (n.takeTurn now supply).1.sourceNamed? name with
      | none => rfl
      | some a => exact absurd ⟨name, hname, by rw [hs]; rfl⟩ hfed
    rw [Readings.value?, cell_of_sourceNamed? hsource]
    rfl
  rw [hnone _ Joiner.mem_firstInput, hnone _ Joiner.mem_secondInput] at h
  exact h

theorem unfed_takeTurn {n : Node} (now : Moment) (supply : Supply) (hn : n.ports.Indexed)
    (hs : n.Sound) (h : n.Unfed) : (n.takeTurn now supply).1.Unfed := by
  refine ofJoiner_takeTurn fun j hj => ?_
  cases hdue : j.isDue (n.readings now supply) with
  | true =>
      obtain ⟨j', hj', hshows, -⟩ := shows_of_due hj hn hs hdue
      rw [hj']
      by_cases hfed : (n.takeTurn now supply).1.Fed
      · exact Or.inl hfed
      · exact Or.inr (Or.inr (empty_of_shows hfed hshows))
  | false =>
      obtain ⟨hbehavior, hout, hsources⟩ := takeTurn_of_idle hj hn hdue
      rw [hbehavior, hout, fed_congr hsources]
      exact Behavior.OfJoiner.state h hj

theorem unfed_lasting : Lasting Unfed where
  detach {n} i h := h.rejoins (n.rejoins_detach i)
  attach {n} e source o i h := h.rejoins (rejoins_attached e source o i n)
  set {n} s h := h.rejoins (n.rejoins_set s)
  turn now supply hn hs h := unfed_takeTurn now supply hn hs h

end Node

namespace Graph

/-! ## The ways of a joiner -/

/-- An input of the joiner shows nothing, and its source is one that takes values back. -/
def Silent (g : Graph) (n : Node) : Prop :=
  ∃ name ∈ NodeType.listJoin.inputNames, ∃ a, n.sourceNamed? name = some a ∧ g.Withdraws a ∧
    (g.readingsOf n).value? name = none

/-- The joiner shows what its inputs show in the graph. -/
def ShowsJoin (g : Graph) (n : Node) (j : Joiner) : Prop :=
  j.Shows ((g.readingsOf n).value? Joiner.firstInput) ((g.readingsOf n).value? Joiner.secondInput)
    n.ports.firstValue?

/-- How a joiner stands between its turns: it has been told of a change, it has no sources, one of
them may have taken its value back, one is flagged and its producer has its next turn after the
joiner, or the joiner shows what it reads. -/
inductive Joins (turns : List NodeId) (g : Graph) (d : NodeId) (n : Node) (j : Joiner) : Prop
  | told : j.refresh = true → Joins turns g d n j
  | unfed : ¬n.Fed → Joins turns g d n j
  | silent : g.Silent n → Joins turns g d n j
  | flagged {name : String} {a : Address} {c : Cell} : name ∈ NodeType.listJoin.inputNames →
      n.sourceNamed? name = some a → g.cellOf? a = some c → c.dirty = true →
      c.value.isEmpty = false → [d, a.producer].Sublist turns → Joins turns g d n j
  | shown : g.ShowsJoin n j → Joins turns g d n j

/-- All joiners stand in one of these ways. -/
def Joined (turns : List NodeId) (g : Graph) : Prop :=
  ∀ d n, g.node? d = some n → n.behavior.OfJoiner (Joins turns g d n)

section Values
variable {g g' : Graph} {n m : Node}
  (hsource : ∀ name, m.sourceNamed? name = n.sourceNamed? name)
  (hcell : ∀ name ∈ NodeType.listJoin.inputNames, ∀ a, n.sourceNamed? name = some a →
    (g'.cellOf? a).map Cell.value = (g.cellOf? a).map Cell.value)
include hsource hcell

/-- What an input shows depends on its source and on the value there. -/
theorem value?_readingsOf_congr {name : String} (hname : name ∈ NodeType.listJoin.inputNames) :
    (g'.readingsOf m).value? name = (g.readingsOf n).value? name := by
  rw [value?_readingsOf, value?_readingsOf, hsource]
  exact Option.bind_congr fun a ha => by rw [hcell name hname a ha]

theorem Silent.congr (h : g.Silent n)
    (hwithdraws : ∀ name a, n.sourceNamed? name = some a → g.Withdraws a → g'.Withdraws a) :
    g'.Silent m := by
  obtain ⟨name, hname, a, ha, hback, hnone⟩ := h
  exact ⟨name, hname, a, (hsource name).trans ha, hwithdraws name a ha hback,
    (value?_readingsOf_congr hsource hcell hname).trans hnone⟩

theorem ShowsJoin.congr {j : Joiner} (h : g.ShowsJoin n j)
    (hout : m.ports.firstValue? = n.ports.firstValue?) : g'.ShowsJoin m j := by
  unfold ShowsJoin
  rw [value?_readingsOf_congr hsource hcell Joiner.mem_firstInput,
    value?_readingsOf_congr hsource hcell Joiner.mem_secondInput, hout]
  exact h

end Values

/-- What `Joined` needs of an edit: a joiner is as it was or told of a change, the cells that it
reads have stayed, and the turns have kept their order. -/
theorem Joined.of_rejoins {turns turns' : List NodeId} {g g' : Graph} (h : Joined turns g)
    (hnodes : ∀ d m, g'.node? d = some m → ¬m.Fed ∨ ∃ n, g.node? d = some n ∧ n.Rejoins m ∧
      ∀ name a, m.sourceNamed? name = some a →
        g'.cellOf? a = g.cellOf? a ∧ (g.Withdraws a → g'.Withdraws a) ∧
          ([d, a.producer].Sublist turns → [d, a.producer].Sublist turns')) :
    Joined turns' g' := by
  intro d m hm
  rcases hnodes d m hm with hfed | ⟨n, hn, hrejoins, hcell⟩
  · exact m.behavior.ofJoiner_self.imp fun _ _ => .unfed hfed
  refine hrejoins.imp fun j hj => ?_
  rcases hj with htold | ⟨hj, hports⟩
  · exact .told htold
  have hsource : ∀ name, m.sourceNamed? name = n.sourceNamed? name := fun name => by
    rw [Node.sourceNamed?, Node.sourceNamed?, hports]
  have hvalue : ∀ name ∈ NodeType.listJoin.inputNames, ∀ a, n.sourceNamed? name = some a →
      (g'.cellOf? a).map Cell.value = (g.cellOf? a).map Cell.value := fun name _ a ha => by
    rw [(hcell name a ((hsource name).trans ha)).1]
  cases (h d n hn).state hj with
  | told htold => exact .told htold
  | unfed hfed => exact .unfed fun hfed' => hfed ((Node.fed_congr hsource).mp hfed')
  | silent hsilent =>
      exact .silent (hsilent.congr hsource hvalue fun name a ha =>
        (hcell name a ((hsource name).trans ha)).2.1)
  | @flagged name a c hname ha hc hdirty hfilled horder =>
      have ha' := (hsource name).trans ha
      obtain ⟨hsame, -, hturns⟩ := hcell name a ha'
      exact .flagged hname ha' (hsame.trans hc) hdirty hfilled (hturns horder)
  | shown hshown => exact .shown (hshown.congr hsource hvalue (by rw [hports]))

theorem Joined.change {turns : List NodeId} {g g' : Graph} {id : NodeId} {f : Node → Node}
    (h : Joined turns g)
    (hnode : ∀ x, g'.node? x = if x = id then (g.node? x).map f else g.node? x)
    (hout : ∀ n, (f n).ports.outputs = n.ports.outputs) (htype : ∀ n, (f n).type = n.type)
    (hf : ∀ n : Node, n.Rejoins (f n)) : Joined turns g' := by
  refine h.of_rejoins fun d m hm => Or.inr ?_
  have hcells : ∀ name a, m.sourceNamed? name = some a →
      g'.cellOf? a = g.cellOf? a ∧ (g.Withdraws a → g'.Withdraws a) ∧
        ([d, a.producer].Sublist turns → [d, a.producer].Sublist turns) := fun _ a _ =>
    ⟨cellOf?_change hnode hout a, fun hback => hback.change hnode htype, fun horder => horder⟩
  rw [hnode] at hm
  split at hm
  · obtain ⟨n, hn, rfl⟩ := Option.map_eq_some_iff.mp hm
    exact ⟨n, hn, hf n, hcells⟩
  · exact ⟨m, hm, m.rejoins_refl, hcells⟩

/-- What a joiner reads from is there. -/
theorem Wired.exists_cellOf? {g : Graph} (h : g.Wired) {d : NodeId} {n : Node}
    (hn : g.node? d = some n) {name : String} {a : Address} (ha : n.sourceNamed? name = some a) :
    ∃ c, g.cellOf? a = some c := by
  obtain ⟨i, -, hs⟩ := Node.sourceNamed?_eq_some.mp ha
  exact (h.producer d i a (source?_eq_some.mpr ⟨n, hn, hs⟩)).exists_cellOf?

theorem Wired.apart_of_sourceNamed? {g : Graph} (h : g.Wired) {d : NodeId} {n : Node}
    (hn : g.node? d = some n) {name : String} {a : Address} (ha : n.sourceNamed? name = some a) :
    a.producer ≠ d := by
  obtain ⟨i, -, hs⟩ := Node.sourceNamed?_eq_some.mp ha
  exact h.apart d i a (source?_eq_some.mpr ⟨n, hn, hs⟩)

theorem Joined.remove {g : Graph} (h : Joined g.ids g) (hw : g.Wired) (id : NodeId) :
    Joined (g.removeNode id).ids (g.removeNode id) := by
  refine h.of_rejoins fun d m hm => Or.inr ?_
  obtain ⟨n, hn, hrejoins⟩ := related_removeNode Node.rejoins_refl Node.Rejoins.trans
    Node.rejoins_detach hm
  refine ⟨n, hn, hrejoins, fun name a ha => ?_⟩
  obtain ⟨c, hc⟩ := (hw.remove id).exists_cellOf? hm ha
  obtain ⟨p', hp', hc'⟩ := cellOf?_eq_some.mp hc
  obtain ⟨p, hp, hloses⟩ := loses_of_removeNode hp'
  rw [Directory.cell?_congr hloses.outputs] at hc'
  refine ⟨hc.trans (cellOf?_eq_some.mpr ⟨p, hp, hc'⟩).symm, fun hback => ?_,
    sublist_removeNode (mem_ids_of_node? hm) (mem_ids_of_node? hp')⟩
  refine hback.of_node fun q hq => ?_
  cases hq.symm.trans hp
  exact ⟨p', hp', hloses.type⟩

theorem Joined.insert {g : Graph} {n : Node} (h : Joined g.ids g) (hw : g.Wired)
    (hid : n.id ∉ g.ids) (hn : n.ports.Loose) : Joined (g.inserted n).ids (g.inserted n) := by
  refine h.of_rejoins fun d m hm => ?_
  rw [node?_inserted hid] at hm
  split at hm
  · cases hm
    left
    rintro ⟨name, -, hsource⟩
    obtain ⟨a, ha⟩ := Option.isSome_iff_exists.mp hsource
    obtain ⟨i, -, hs⟩ := Node.sourceNamed?_eq_some.mp ha
    rw [hn i] at hs
    exact nomatch hs
  · refine Or.inr ⟨m, hm, m.rejoins_refl, fun name a ha => ?_⟩
    obtain ⟨i, -, hs⟩ := Node.sourceNamed?_eq_some.mp ha
    have hproducer := (hw.producer d i a (source?_eq_some.mpr ⟨m, hm, hs⟩)).mem_ids
    have hother : a.producer ≠ n.id := fun heq => hid (heq ▸ hproducer)
    have hnode : (g.inserted n).node? a.producer = g.node? a.producer := by
      rw [node?_inserted hid, if_neg hother]
    refine ⟨?_, fun hback => hback.of_node fun p hp => ⟨p, hnode.trans hp, rfl⟩, fun horder => ?_⟩
    · rw [cellOf?, hnode]
      rfl
    · exact horder.trans ((sublist_insertByPriority n g.nodes).map Node.id)

/-! ## Turns -/

section Turns
variable {g : Graph} {id : NodeId} {rest : List NodeId} {n m : Node} {j : Joiner} (now : Moment)

/-- In its turn a joiner shows what it reads, unless there is nothing to compute and it has no
source, or one that may have taken its value back; what it cannot join leaves the output alone. -/
theorem Joins.turn (h : Joins (id :: rest) g id n j) (hw : g.Wired) (hs : n.Sound)
    (hn : g.node? id = some n) (hj : n.behavior = .listJoin j)
    (hm : (runNode now g id).node? id = some m) :
    ∃ j', m.behavior = .listJoin j' ∧
      (∀ e, Joiner.join (((runNode now g id).readingsOf m).value? Joiner.firstInput)
          (((runNode now g id).readingsOf m).value? Joiner.secondInput) = .error e →
        m.ports.firstValue? = n.ports.firstValue?) ∧
      ((runNode now g id).ShowsJoin m j' ∨
        j' = j ∧ j.isDue (n.readings now (supplyOf g.nodes n)) = false ∧
          (¬m.Fed ∨ (runNode now g id).Silent m)) := by
  rw [node?_runNode hn, if_pos rfl] at hm
  cases hm
  have hports := hw.ports_indexed hn
  have hread := hw.cell_readingsOf hn now
  have hvalue : ∀ name, ((runNode now g id).readingsOf
      (n.takeTurn now (supplyOf g.nodes n)).1).value? name =
        (n.readings now (supplyOf g.nodes n)).value? name := fun name => by
    rw [Readings.value?, Readings.value?, hread]
  cases hdue : j.isDue (n.readings now (supplyOf g.nodes n)) with
  | true =>
      obtain ⟨j', hj', hshows, hkeep⟩ := Node.shows_of_due hj hports hs hdue
      refine ⟨j', hj', ?_, Or.inl ?_⟩
      · rw [hvalue, hvalue]
        exact hkeep
      · unfold ShowsJoin
        rw [hvalue, hvalue]
        exact hshows
  | false =>
      obtain ⟨hbehavior, hout, hsource⟩ := Node.takeTurn_of_idle hj hports hdue
      obtain ⟨hrefresh, hnames⟩ := Joiner.of_idle hdue
      have hcell : ∀ name ∈ NodeType.listJoin.inputNames, ∀ a, n.sourceNamed? name = some a →
          ((runNode now g id).cellOf? a).map Cell.value = (g.cellOf? a).map Cell.value :=
        fun name _ a ha => by rw [cellOf?_runNode hn now (hw.apart_of_sourceNamed? hn ha)]
      refine ⟨j, hbehavior, fun _ _ => hout, ?_⟩
      cases h with
      | told htold =>
          rw [hrefresh] at htold
          cases htold
      | unfed hfed =>
          exact Or.inr ⟨rfl, rfl, Or.inl fun hfed' => hfed ((Node.fed_congr hsource).mp hfed')⟩
      | silent hsilent =>
          exact Or.inr ⟨rfl, rfl, Or.inr (hsilent.congr hsource hcell
            fun _ _ _ hback => hback.turn hn now)⟩
      | @flagged name a c hname ha hc hdirty hfilled _ =>
          -- The flag would be a reason to compute.
          have hread' : (n.readings now (supplyOf g.nodes n)).cell name = some c := by
            rw [hread]
            show (runNode now g id).reading? _ name = some c
            rw [reading?_eq, hsource, ha, Option.bind_some,
              cellOf?_runNode hn now (hw.apart_of_sourceNamed? hn ha), hc]
            simp [hfilled, Option.filter_some]
          have hchanged := (hnames name hname).1
          rw [Readings.changed, hread', Option.any_some, hdirty] at hchanged
          cases hchanged
      | shown hshown => exact Or.inl (hshown.congr hsource hcell hout)

/-- The turn of another node flags a cell that a joiner reads, or may have taken its value back, or
leaves the values of all. -/
theorem Wired.flagged_or_same (hw : g.Wired) {d : NodeId} (hn : g.node? id = some n)
    (hm : (runNode now g id).node? d = some m) :
    (∃ name ∈ NodeType.listJoin.inputNames, ∃ a c, m.sourceNamed? name = some a ∧
        a.producer = id ∧ (runNode now g id).cellOf? a = some c ∧ c.dirty = true ∧
          c.value.isEmpty = false) ∨
      (runNode now g id).Silent m ∨
        ∀ name ∈ NodeType.listJoin.inputNames, ∀ a, m.sourceNamed? name = some a →
          ((runNode now g id).cellOf? a).map Cell.value = (g.cellOf? a).map Cell.value := by
  refine Classical.or_iff_not_imp_left.mpr fun hflagged =>
    Classical.or_iff_not_imp_left.mpr fun hsilent name hname a ha => ?_
  obtain ⟨c, hc⟩ := (hw.turn now id).exists_cellOf? hm ha
  rcases hw.filled_or_same hn now hc with ⟨hp, hdirty, hfilled⟩ | hsame | ⟨hempty, hback⟩
  · exact absurd ⟨name, hname, a, c, ha, hp, hc, hdirty, hfilled⟩ hflagged
  · rw [hc, hsame]
    rfl
  · refine absurd ⟨name, hname, a, ha, hback, ?_⟩ hsilent
    rw [value?_readingsOf, ha, Option.bind_some, hc]
    simp [hempty, Option.filter_some]

/-- The turn of another node leaves a joiner in one of the ways. -/
theorem Joins.turn_other {d : NodeId} (h : Joins (id :: rest) g d m j) (hw : g.Wired)
    (hnodup : (id :: rest).Nodup) (hn : g.node? id = some n) (hd : d ≠ id) (hrest : d ∈ rest)
    (hm : (runNode now g id).node? d = some m) :
    Joins (rest ++ [id]) (runNode now g id) d m j := by
  have hsource : ∀ name, m.sourceNamed? name = m.sourceNamed? name := fun _ => rfl
  rcases hw.flagged_or_same now hn hm with
    ⟨name, hname, a, c, ha, hp, hc, hdirty, hfilled⟩ | hsilent | hcell
  · refine .flagged hname ha hc hdirty hfilled ?_
    rw [hp]
    exact (List.singleton_sublist.mpr hrest).append (List.Sublist.refl [id])
  · exact .silent hsilent
  cases h with
  | told htold => exact .told htold
  | unfed hfed => exact .unfed hfed
  | silent hsilent =>
      exact .silent (hsilent.congr hsource hcell fun _ _ _ hback => hback.turn hn now)
  | @flagged name a c hname ha hc hdirty hfilled horder =>
      have hp : a.producer ≠ id := by
        intro hp
        rw [hp] at horder
        exact not_sublist_head hnodup hd horder
      exact .flagged hname ha ((cellOf?_runNode hn now hp).trans hc) hdirty hfilled
        (sublist_rotate hd horder)
  | shown hshown => exact .shown (hshown.congr hsource hcell rfl)

theorem Joined.turn (h : Joined (id :: rest) g) (hw : g.Wired) (hshape : Shaped (id :: rest) g) :
    Joined (rest ++ [id]) (runNode now g id) := by
  have hnodup : (id :: rest).Nodup := hshape.turns.nodup_iff.mpr hw.nodup
  obtain ⟨n, hn⟩ := hshape.exists_next
  intro d m hm
  have hm' := hm
  rw [node?_runNode hn] at hm'
  by_cases hd : d = id
  · subst hd
    rw [if_pos rfl] at hm'
    cases hm'
    refine Node.ofJoiner_takeTurn fun j hj => ?_
    obtain ⟨j', hj', -, hway⟩ :=
      Joins.turn now ((h d n hn).state hj) hw (hshape.sound n (mem_of_nodeIn? hn)) hn hj hm
    rw [hj']
    rcases hway with hshown | ⟨-, -, hunfed | hsilent⟩
    · exact .shown hshown
    · exact .unfed hunfed
    · exact .silent hsilent
  · rw [if_neg hd] at hm'
    have hrest : d ∈ rest := by
      have hmem := hshape.turns.mem_iff.mpr (mem_ids_of_node? hm')
      exact (List.mem_cons.mp hmem).resolve_left hd
    exact (h d m hm').imp fun j hjoins => hjoins.turn_other now hw hnodup hn hd hrest hm

end Turns

theorem joined_invariant : Invariant Standing Joined where
  blank name c := by
    intro d n hn
    exact nomatch hn
  context _ _ h := h.of_rejoins fun d m hm =>
    Or.inr ⟨m, hm, m.rejoins_refl, fun _ _ _ => ⟨rfl, fun hback => hback, fun horder => horder⟩⟩
  remove id hq h := h.remove hq.1 id
  insert hq h hid hn := h.insert hq.1 hid hn.loose
  attach {g e source target o i} _ h _ := by
    rw [ids_attached]
    exact h.change node?_attached outputs_attachedNode (type_attachedNode e source o i)
      (Node.rejoins_attached e source o i)
  disconnect {g e g' consumer input} _ h hd := by
    obtain ⟨slot, rfl, _, _, rfl⟩ := disconnect_eq_some hd
    change Joined (g.detached consumer slot).ids (g.detached consumer slot)
    rw [ids_detached]
    exact h.change (node?_detached g consumer slot) (fun n => n.outputs_detach _)
      (fun n => n.type_detach _) fun n => n.rejoins_detach _
  set {g} id s _ h := by
    rw [ids_set]
    exact h.change (node?_set g id s) (fun n => by rw [s.ports_onNode]) s.type_onNode
      (Node.rejoins_set s)
  turn now hq h := h.turn now hq.1 hq.2

/-! ## Frames -/

/-- A graph that has been made without a load. -/
def Unloaded (g : Graph) : Prop :=
  ∃ name actions, (∀ a ∈ actions, Action.isLoad a = false) ∧ g = run actions (empty name)

theorem unfed_create (t : NodeType) (c : Context) (id : NodeId) :
    Node.Unfed { (Node.create t c).1 with id } := by
  cases t with
  | listJoin => exact Or.inr (Or.inr ⟨⟨.empty, rfl, Or.inl rfl⟩, rfl⟩)
  | _ => trivial

/-- Without a load a joiner without sources has been told of it, or has nothing on its output and no
error. -/
theorem Unloaded.unfed {g : Graph} (h : g.Unloaded) : g.Throughout Node.Unfed := by
  obtain ⟨name, actions, hload, rfl⟩ := h
  refine Throughout.run Node.unfed_lasting (fun a ha g n hn => ?_) ⟨name, [], rfl⟩ ?_
  · cases a with
    | create t =>
        cases hn
        exact unfed_create t g.context _
    | add t c =>
        cases hn
        exact unfed_create t c _
    | load bytes => exact nomatch hload _ ha
    | _ => exact hn.elim
  · intro x n hn
    exact nomatch hn

/-- A joiner without sources shows what it reads when there is nothing on its output. -/
theorem showsJoin_of_unfed {g : Graph} {n : Node} (hfed : ¬n.Fed) {j : Joiner}
    (h : (∃ o, n.ports.firstValue? = some o ∧ o.Agrees .empty) ∧ j.error = none) :
    g.ShowsJoin n j := by
  have hnone : ∀ name ∈ NodeType.listJoin.inputNames, (g.readingsOf n).value? name = none := by
    intro name hname
    rw [value?_readingsOf]
    cases hs : n.sourceNamed? name with
    | none => rfl
    | some a => exact absurd ⟨name, hname, by rw [hs]; rfl⟩ hfed
  unfold ShowsJoin
  rw [hnone _ Joiner.mem_firstInput, hnone _ Joiner.mem_secondInput]
  exact h

/-- After its turn a joiner reads lists, and its output and its error are those that they call for
if there was something to compute, or if no source may have taken its value back and the joiner has
sources, or has been told when it lost them. -/
theorem Joins.reflects {g : Graph} {id : NodeId} {rest : List NodeId} {n m : Node} {j : Joiner}
    (now : Moment) (h : Joins (id :: rest) g id n j) (hw : g.Wired) (hs : n.Sound)
    (hn : g.node? id = some n) (hj : n.behavior = .listJoin j)
    (hm : (runNode now g id).node? id = some m) :
    ∃ j', m.behavior = .listJoin j' ∧
      (∀ name ∈ NodeType.listJoin.inputNames, ∀ v,
        ((runNode now g id).readingsOf m).value? name = some v →
          KindSet.lists.contains v.kind = true) ∧
      (j.isDue (n.readings now (supplyOf g.nodes n)) = true ∨
          ¬(runNode now g id).Silent m ∧ (m.Fed ∨ m.Unfed) →
        j'.Reflects (((runNode now g id).readingsOf m).value? Joiner.firstInput)
          (((runNode now g id).readingsOf m).value? Joiner.secondInput)
          n.ports.firstValue? m.ports.firstValue?) := by
  obtain ⟨j', hj', hkeep, hway⟩ := Joins.turn now h hw hs hn hj hm
  have hkinds : ∀ name ∈ NodeType.listJoin.inputNames, ∀ v,
      ((runNode now g id).readingsOf m).value? name = some v →
        KindSet.lists.contains v.kind = true := by
    intro name hname v hv
    rw [node?_runNode hn, if_pos rfl] at hm
    cases hm
    rw [Readings.value?, ← hw.cell_readingsOf hn now] at hv
    obtain ⟨c, hc, rfl⟩ := Option.map_eq_some_iff.mp hv
    exact Node.kind_of_joiner hj hname hc
  refine ⟨j', hj', hkinds, fun hcond => ?_⟩
  refine Joiner.Shows.reflects ?_ (hkinds _ Joiner.mem_firstInput) hkeep
  rcases hway with hshown | ⟨rfl, hidle, hway⟩
  · exact hshown
  rcases hcond with hdue | ⟨hsilent, hsource⟩
  · rw [hidle] at hdue
    cases hdue
  rcases hway with hfed | hsilent'
  · exact showsJoin_of_unfed hfed
      ((hsource.resolve_left hfed).empty hj' hfed (Joiner.of_idle hidle).1)
  · exact absurd hsilent' hsilent

/-- After each of its turns a joiner reads lists only.  Its output and its error are those that the
lists call for if there was something to compute.  If there was nothing to compute they still are,
unless another joiner or a mesh that it reads shows nothing, or it is without sources in a graph
into which scenes have been loaded. -/
theorem joined_after_turn {g : Graph} (h : g.Reachable) (poll : Poll) (f : Clock → Clock)
    {done rest : List NodeId} {id : NodeId} (hids : g.ids = done ++ id :: rest) {n : Node}
    (hn : (g.inFrame poll f done).node? id = some n) {j : Joiner} (hj : n.behavior = .listJoin j) :
    ∃ m j', (g.inFrame poll f (done ++ [id])).node? id = some m ∧ m.behavior = .listJoin j' ∧
      (∀ name ∈ NodeType.listJoin.inputNames, ∀ v,
        ((g.inFrame poll f (done ++ [id])).readingsOf m).value? name = some v →
          KindSet.lists.contains v.kind = true) ∧
      (j.isDue (n.readings ((g.withClock f).moment poll)
            (supplyOf (g.inFrame poll f done).nodes n)) = true ∨
          ¬(g.inFrame poll f (done ++ [id])).Silent m ∧ (m.Fed ∨ g.Unloaded) →
        j'.Reflects (((g.inFrame poll f (done ++ [id])).readingsOf m).value? Joiner.firstInput)
          (((g.inFrame poll f (done ++ [id])).readingsOf m).value? Joiner.secondInput)
          n.ports.firstValue? m.ports.firstValue?) := by
  obtain ⟨⟨hw, hshape⟩, hjoined⟩ :=
    (standing_invariant.and joined_invariant).inFrame h poll f hids
  obtain ⟨m, hm⟩ : ∃ m, (g.inFrame poll f (done ++ [id])).node? id = some m := by
    rw [inFrame_append, node?_runNode hn, if_pos rfl]
    exact ⟨_, rfl⟩
  have hunfed : g.Unloaded → m.Unfed := fun hload => by
    have hids' : g.ids = (done ++ [id]) ++ rest := by simpa using hids
    exact hload.unfed.inFrame Node.unfed_lasting h poll f hids' id m hm
  rw [inFrame_append] at hm ⊢
  obtain ⟨j', hj', hkinds, hreflects⟩ :=
    Joins.reflects _ ((hjoined id n hn).state hj) hw (hshape.sound n (mem_of_nodeIn? hn)) hn hj hm
  refine ⟨m, j', hm, hj', hkinds, fun hcond => hreflects ?_⟩
  exact hcond.imp_right (And.imp_right (Or.imp_right hunfed))

end Graph

end Patchbay

/-! ## With the standard engine -/

namespace Patchbay.Graph

/-- A list that is joined with nothing, and the result joined with nothing again. -/
def chainedList : Graph :=
  sizedList.run [.create .listJoin, .create .listJoin, .connect ⟨2⟩ 0 ⟨5⟩ 0,
    .connect ⟨5⟩ 0 ⟨9⟩ 0]

/-- In the next frame the first joiner has the list on its output. -/
theorem joined_after_turn_of_chainedList :
    chainedList.Reachable ∧ chainedList.ids = [⟨0⟩, ⟨2⟩] ++ ⟨5⟩ :: [⟨9⟩] ∧
      ∃ m list, (chainedList.inFrame Poll.none (·.step 0) ([⟨0⟩, ⟨2⟩] ++ [⟨5⟩])).node? ⟨5⟩ = some m ∧
        ((chainedList.inFrame Poll.none (·.step 0) ([⟨0⟩, ⟨2⟩] ++ [⟨5⟩])).readingsOf m).value?
          Joiner.firstInput = some (.floatList list) ∧
        ∃ out, m.ports.firstValue? = some out ∧ out.Agrees (.floatList list) := by
  have hreachable : chainedList.Reachable := Reachable.run ⟨_, _, rfl⟩ _
  have hids : chainedList.ids = [⟨0⟩, ⟨2⟩] ++ ⟨5⟩ :: [⟨9⟩] := by decide
  refine ⟨hreachable, hids, ?_⟩
  obtain ⟨m, j', hm, -, -, hreflects⟩ :=
    joined_after_turn hreachable Poll.none (·.step 0) hids (n := _) rfl (j := _) rfl
  have hout := hreflects (Or.inl rfl)
  cases hm
  exact ⟨_, _, rfl, rfl, hout.1⟩

/-- The joiners when the first one has been cut off from the list. -/
def severedList : Graph := chainedList.run [.step Poll.none 0, .disconnect ⟨5⟩ 0]

/-- In the next frame the first joiner has nothing on its output any more, and the second one keeps
the list. -/
theorem kept_of_severedList :
    severedList.Reachable ∧ severedList.ids = [⟨0⟩, ⟨2⟩, ⟨5⟩] ++ ⟨9⟩ :: [] ∧
      ∃ n m j', (severedList.inFrame Poll.none (·.step 0) [⟨0⟩, ⟨2⟩, ⟨5⟩]).node? ⟨9⟩ = some n ∧
        (severedList.inFrame Poll.none (·.step 0) ([⟨0⟩, ⟨2⟩, ⟨5⟩] ++ [⟨9⟩])).node? ⟨9⟩ = some m ∧
        m.behavior = .listJoin j' ∧
        ¬j'.Reflects
          (((severedList.inFrame Poll.none (·.step 0) ([⟨0⟩, ⟨2⟩, ⟨5⟩] ++ [⟨9⟩])).readingsOf m).value?
            Joiner.firstInput)
          (((severedList.inFrame Poll.none (·.step 0) ([⟨0⟩, ⟨2⟩, ⟨5⟩] ++ [⟨9⟩])).readingsOf m).value?
            Joiner.secondInput)
          n.ports.firstValue? m.ports.firstValue? := by
  have hreachable : severedList.Reachable := Reachable.run (Reachable.run ⟨_, _, rfl⟩ _) _
  refine ⟨hreachable, by decide, _, _, _, rfl, rfl, rfl, ?_⟩
  rintro ⟨⟨out, hout, hagrees⟩, -⟩
  cases hout
  rcases hagrees with hsame | hempty
  · exact nomatch hsame
  · exact nomatch hempty

end Patchbay.Graph
