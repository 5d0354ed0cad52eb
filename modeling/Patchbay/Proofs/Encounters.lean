import Patchbay.Proofs.Delays
import Patchbay.Proofs.Removals
/-!
What a node meets in its turn.

When a node has its turn in a frame, the nodes that precede it are as they
will be after the frame, and all others are as they were before it.  So what
becomes of a node in a frame is a matter of the node, of the moment, of what
its producers are before and after, and of which of them precede it.  Of the
moment only the time counts, unless the node is a mesh that has a load under
way or one to start.
-/

namespace Patchbay

/-! ## Nodes that ask nothing of the outside -/

namespace MeshSource

/-- No load is under way, and none will be started. -/
def idle (m : MeshSource) : Bool := m.status.load?.isNone && m.pendingPath.all String.isEmpty

/-- The turn of an idle mesh: nothing is done, unless an empty path is taken over. -/
theorem plan_of_idle {m : MeshSource} (h : m.idle = true) :
    (∀ now id, m.plan now id = .simply m []) ∨
      ∃ m', m'.idle = true ∧ (∀ now id, m'.plan now id = .simply m' []) ∧
        ∀ now id, m.plan now id = .simply m' [.publish 0 .empty] := by
  have hrest : ∀ m : MeshSource, m.status.load? = none → m.pendingPath = none →
      ∀ now id, m.plan now id = .simply m [] := by
    intro m hstatus hpending now id
    simp only [plan, redirected, polled, hpending]
    cases hs : m.status with
    | loading load => rw [hs] at hstatus; exact nomatch hstatus
    | _ => rfl
  obtain ⟨hstatus, hpath⟩ := (Bool.and_eq_true _ _).mp h
  rw [Option.isNone_iff_eq_none] at hstatus
  cases hpending : m.pendingPath with
  | none => exact Or.inl (hrest m hstatus hpending)
  | some path =>
      rw [hpending] at hpath
      have hempty : path.isEmpty = true := hpath
      refine Or.inr ⟨{ m with path, pendingPath := none, status := .noFile, error := none }, rfl,
        hrest _ rfl rfl, fun now id => ?_⟩
      simp only [plan, redirected, polled, hpending, hempty, if_true]
      rfl

end MeshSource

variable [Formula.Engine]

namespace Behavior

/-- No load is under way, and none will be started; only a mesh has any. -/
def idle : Behavior → Bool
  | mesh m => m.idle
  | _ => true

/-- What an idle node does in its turn is a matter of the time. -/
theorem plan_of_idle {b : Behavior} (h : b.idle = true) {now now' : Moment}
    (htime : now'.elapsed = now.elapsed) (id : NodeId) : b.plan now' id = b.plan now id := by
  cases b with
  | time => rw [plan, plan, htime]
  | mesh m =>
      rcases MeshSource.plan_of_idle h with hplan | ⟨m', -, -, hplan⟩
      · rw [plan, plan, hplan, hplan]
      · rw [plan, plan, hplan, hplan]
  | _ => rfl

theorem idle_finish {b : Behavior} (h : b.idle = true) (now : Moment) (id : NodeId) (r : Readings) :
    ((b.plan now id).finish r).1.idle = true := by
  cases b with
  | mesh m =>
      show ((m.plan now id).finish r).1.idle = true
      rcases MeshSource.plan_of_idle h with hplan | ⟨m', hidle, -, hplan⟩
      · rw [hplan]
        exact h
      · rw [hplan]
        exact hidle
  | _ => rfl

theorem idle_disconnectedAll (lost : List Dropped) (b : Behavior) :
    (b.disconnectedAll lost).idle = b.idle := by
  unfold disconnectedAll
  induction lost generalizing b with
  | nil => rfl
  | cons d lost ih =>
      rw [List.foldl_cons, ih]
      cases b <;> rfl

end Behavior

namespace Node

/-- A turn is a matter of the plan and of what is supplied. -/
theorem takeTurn_congr {n : Node} {now now' : Moment} (h : n.plan now' = n.plan now)
    (supply : Supply) : n.takeTurn now' supply = n.takeTurn now supply := by
  have hplan : n.behavior.plan now' n.id = n.behavior.plan now n.id := h
  unfold takeTurn
  rw [hplan]

theorem idle_takeTurn {n : Node} (h : n.behavior.idle = true) (now : Moment) (supply : Supply) :
    (n.takeTurn now supply).1.behavior.idle = true := by
  rw [takeTurn_node]
  exact (Behavior.idle_disconnectedAll _ _).trans (Behavior.idle_finish h now n.id _)

end Node

namespace Graph

/-! ## Who precedes whom -/

/-- The first node has its turn before the second one. -/
def Precedes (g : Graph) (x y : NodeId) : Prop := [x, y].Sublist g.ids

instance (g : Graph) (x y : NodeId) : Decidable (g.Precedes x y) :=
  inferInstanceAs (Decidable ([x, y].Sublist g.ids))

theorem Precedes.congr {g k : Graph} (h : k.ids = g.ids) (x y : NodeId) :
    k.Precedes x y ↔ g.Precedes x y := by
  rw [Precedes, Precedes, h]

/-- Which of two nodes precedes the other is not changed when a third one comes or goes. -/
theorem precedes_of_filter {g k : Graph} {id x y : NodeId} (h : k.ids = g.ids.filter (· != id))
    (hx : x ≠ id) (hy : y ≠ id) : k.Precedes x y ↔ g.Precedes x y := by
  rw [Precedes, Precedes, h]
  constructor
  · intro hsub
    exact hsub.trans List.filter_sublist
  · intro hsub
    have hfilter := hsub.filter (· != id)
    have hkeep : [x, y].filter (· != id) = [x, y] := by simp [hx, hy]
    rwa [hkeep] at hfilter

section Meeting
variable {g : Graph} {done rest : List NodeId} {x : NodeId} (hg : g.ids.Nodup)
  (hids : g.ids = done ++ x :: rest)
include hg hids

/-- The nodes that precede another one are those that have had their turns before its own. -/
theorem precedes_iff {p : NodeId} : g.Precedes p x ↔ p ∈ done := by
  rw [hids] at hg
  obtain ⟨-, hback, hapart⟩ := List.nodup_append.mp hg
  rw [Precedes, hids]
  constructor
  · intro hsub
    obtain ⟨front, back, hsplit, hfront, hrest⟩ := List.sublist_append_iff.mp hsub
    cases front with
    | cons q front =>
        rw [List.cons_append, List.cons.injEq] at hsplit
        rw [hsplit.1]
        exact hfront.subset List.mem_cons_self
    | nil =>
        -- Then the node itself would stand behind its own place.
        rw [List.nil_append] at hsplit
        subst hsplit
        have hself : x ∈ rest := by
          cases hrest with
          | cons _ h => exact h.subset (by simp)
          | cons_cons _ h => exact h.subset (by simp)
        exact absurd hself (List.nodup_cons.mp hback).1
  · intro hp
    exact (List.singleton_sublist.mpr hp).append (List.singleton_sublist.mpr List.mem_cons_self)

variable (poll : Poll) (f : Clock → Clock)

/-- At the turn of a node the nodes that precede it are as after the frame, the others as before. -/
theorem node?_at_turn (p : NodeId) :
    (g.inFrame poll f done).node? p =
      if p ∈ done then ((g.withClock f).evaluate poll).node? p else g.node? p := by
  by_cases hdone : p ∈ done
  · rw [if_pos hdone]
    rw [hids] at hg
    have htodo : p ∉ x :: rest := fun hmem => (List.nodup_append.mp hg).2.2 p hdone p hmem rfl
    exact (node?_frame poll f hids htodo).symm
  · rw [if_neg hdone]
    exact node?_inFrame poll f hdone

/-- What becomes of a node in a frame. -/
theorem node?_after_frame {n : Node} (hn : g.node? x = some n) :
    ((g.withClock f).evaluate poll).node? x =
      some (n.takeTurn ((g.withClock f).moment poll)
        (supplyOf (g.inFrame poll f done).nodes n)).1 := by
  have hbefore : (g.inFrame poll f done).node? x = some n :=
    (node?_before_turn hg hids poll f).trans hn
  rw [node?_after_turn hg hids, inFrame_append, node?_runNode hbefore, if_pos rfl]

end Meeting

theorem ids_evaluate (poll : Poll) (f : Clock → Clock) (g : Graph) :
    ((g.withClock f).evaluate poll).ids = g.ids :=
  Invariant.ids_turns _ _ _

theorem exists_node_of_mem_ids {g : Graph} {x : NodeId} (hx : x ∈ g.ids) :
    ∃ n, g.node? x = some n := by
  cases hn : g.node? x with
  | none => exact absurd hx (nodeIn?_eq_none.mp hn)
  | some n => exact ⟨n, rfl⟩

/-- A node of a graph has a place in the order of the turns. -/
theorem exists_place {g : Graph} {x : NodeId} {n : Node} (hn : g.node? x = some n) :
    ∃ done rest, g.ids = done ++ x :: rest :=
  List.append_of_mem (mem_ids_of_node? hn)

/-- A node after a frame has had its turn in it. -/
theorem exists_turn {g : Graph} (hg : g.ids.Nodup) {poll : Poll} {f : Clock → Clock} {x : NodeId}
    {m : Node} (hm : ((g.withClock f).evaluate poll).node? x = some m) :
    ∃ n done rest, g.node? x = some n ∧ g.ids = done ++ x :: rest ∧
      m = (n.takeTurn ((g.withClock f).moment poll)
        (supplyOf (g.inFrame poll f done).nodes n)).1 := by
  have hmem : x ∈ g.ids := ids_evaluate poll f g ▸ mem_ids_of_node? hm
  obtain ⟨n, hn⟩ := exists_node_of_mem_ids hmem
  obtain ⟨done, rest, hids⟩ := exists_place hn
  rw [node?_after_frame hg hids poll f hn] at hm
  cases hm
  exact ⟨n, done, rest, hn, hids, rfl⟩

/-! ## What a frame leaves alone -/

theorem context_runNode (now : Moment) (g : Graph) (id : NodeId) :
    (runNode now g id).context = g.context := by
  cases hn : g.node? id with
  | none => rw [runNode_of_none hn]
  | some n => rw [runNode_eq hn]; rfl

/-- A frame changes nothing of the context but the clock. -/
theorem context_frame (poll : Poll) (f : Clock → Clock) (g : Graph) :
    ((g.withClock f).evaluate poll).context = (g.withClock f).context := by
  suffices h : ∀ (now : Moment) (turns : List NodeId) (g : Graph),
      (turns.foldl (runNode now) g).context = g.context from h _ _ _
  intro now turns g
  induction turns generalizing g with
  | nil => rfl
  | cons id turns ih => rw [List.foldl_cons, ih, context_runNode]

/-- A frame keeps the wiring in agreement and attaches nothing. -/
theorem Wired.frame {g : Graph} (h : g.Wired) (poll : Poll) (f : Clock → Clock) :
    ((g.withClock f).evaluate poll).Wired ∧
      ∀ c i a, ((g.withClock f).evaluate poll).source? c i = some a → g.source? c i = some a :=
  (h.withClock f).turns _ _

end Graph

end Patchbay
