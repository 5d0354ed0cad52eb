import Patchbay.Formula.Basic
import Patchbay.Proofs.ListCache
/-!
What a broken formula does to a list.

The sources of a list are compiled one after the other, and at the first that
is broken the slots behind it keep the formulas they had.  The slots before
it have been replaced by then, and no edit waits any longer, so the next turn
goes on with what the slots hold.  `Graph.Breaking` are the runs in which
this does no harm: whenever a frame comes some source is broken, and those
before it are the ones that compiled last.  Then the slots never change, and
each list that is made is made of the last formulas that compiled together.
The report of the broken source is withdrawn by the first such list, so it
stands only until then.
-/

namespace Patchbay

variable [Formula.Engine]

namespace Generator

/-- Some source is broken, and compiling up to it leaves the formulas as they are. -/
def Breaks (k : FormulaSlots) (s : Generator) : Prop :=
  ∃ e, compileSlots s.sources k = .error e k

theorem Breaks.not_formulasOf {k k' : FormulaSlots} {s : Generator} (h : s.Breaks k) :
    formulasOf s.sources ≠ .ok k' := by
  obtain ⟨e, he⟩ := h
  exact not_formulasOf_of_error he

/-- What is known of a list whose last formulas were `k`, after `lists` lists have been made with a
broken source: it still has these formulas, and before the first such list it waits to be compiled,
or reports an error, or nothing is broken. -/
structure Holds (k : FormulaSlots) (lists : Nat) (s : Generator) : Prop where
  compiled : s.compiled = k
  error : lists = 0 → s.formulasStale = true ∨ s.error ≠ none ∨ ∃ k', formulasOf s.sources = .ok k'

theorem durable_holds (k : FormulaSlots) (lists : Nat) : Durable (Holds k lists) where
  element _ h := ⟨h.compiled, h.error⟩
  dimension _ h := ⟨h.compiled, h.error⟩
  names _ h := ⟨h.compiled, h.error⟩
  expression {s} component source h := by
    rcases s.setExpression_cases component source with hs | ⟨sources, hs⟩
    · rw [hs]
      exact h
    · rw [hs]
      exact ⟨h.compiled, fun _ => Or.inl rfl⟩

section Turns
variable {g next : Generator} {r : Readings} {posts : List Post} {k : FormulaSlots} {lists : Nat}

/-- A state that is ready although a source is broken has not been compiled anew. -/
theorem Ready.formulas_of_breaks (h : g.Ready next) (hg : g.Holds k lists) (hbreaks : g.Breaks k) :
    g.formulasStale = false ∧ next.compiled = k := by
  cases hstale : g.formulasStale with
  | true => exact absurd (h.formulas hstale) hbreaks.not_formulasOf
  | false => exact ⟨rfl, (h.compiled hstale).trans hg.compiled⟩

/-- With a broken source a turn leaves the formulas as they are, and reports an error unless it
makes a list. -/
theorem Turned.holds (h : g.Turned r next posts) (hg : g.Holds k lists) (hbreaks : g.Breaks k) :
    next.Holds k (lists + posts.length) := by
  cases h with
  | broken hstale hslots =>
      obtain ⟨e', hkeeps⟩ := hbreaks
      rw [hg.compiled, hkeeps] at hslots
      cases hslots
      exact ⟨rfl, fun _ => Or.inr (Or.inl (by simp))⟩
  | unsized hready _ =>
      obtain ⟨-, hcompiled⟩ := hready.formulas_of_breaks hg hbreaks
      exact ⟨hcompiled, fun _ => Or.inr (Or.inl (by simp))⟩
  | reused _ _ => exact hg
  | produced hready _ _ _ =>
      obtain ⟨-, hcompiled⟩ := hready.formulas_of_breaks hg hbreaks
      refine ⟨hcompiled, fun hnone => ?_⟩
      simp at hnone
  | failed hready _ _ _ =>
      obtain ⟨-, hcompiled⟩ := hready.formulas_of_breaks hg hbreaks
      exact ⟨hcompiled, fun _ => Or.inr (Or.inl (by simp))⟩

/-- With a broken source a turn posts nothing, or the list made of the formulas `k`. -/
theorem Turned.posts_of_breaks (h : g.Turned r next posts) (hg : g.Holds k lists)
    (hbreaks : g.Breaks k) :
    posts = [] ∨ ∃ list, posts = [.publish 0 list] ∧ { next with compiled := k }.made r = .ok list := by
  cases h with
  | broken _ _ => exact Or.inl rfl
  | unsized _ _ => exact Or.inl rfl
  | reused _ _ => exact Or.inl rfl
  | @produced next list hready _ _ hmade =>
      obtain ⟨-, hcompiled⟩ := hready.formulas_of_breaks hg hbreaks
      refine Or.inr ⟨list, rfl, ?_⟩
      rw [← hcompiled]
      exact hmade
  | failed _ _ _ _ => exact Or.inl rfl

/-- With a broken source a turn without a list leaves an error, if none has been made before. -/
theorem Turned.error_of_breaks (h : g.Turned r next posts) (hg : g.Holds k lists)
    (hbreaks : g.Breaks k) (hlists : lists + posts.length = 0) : next.error ≠ none := by
  have hnone : lists = 0 := by omega
  cases h with
  | broken _ _ => simp
  | unsized _ _ => simp
  | reused _ hreuse =>
      rcases hg.error hnone with hstale | herror | ⟨k', hk'⟩
      · simp [reuses, hstale] at hreuse
      · exact herror
      · exact absurd hk' hbreaks.not_formulasOf
  | produced _ _ _ _ => simp at hlists
  | failed _ _ _ _ => simp

end Turns

end Generator

/-! ## Runs -/

namespace Graph

/-- The posts of a node in its turn. -/
def postsIn (now : Moment) (g : Graph) (n : Node) : List Post :=
  (n.outcome now (supplyOf g.nodes n)).2

/-- The graphs that follow when the list `id` has taken over the formulas `k`, while no other node
takes its place and some source of it is broken in every frame.  The number counts the lists that
it has made since. -/
inductive Breaking (id : NodeId) (k : FormulaSlots) : Nat → Graph → Prop
  | start {g : Graph} {n : Node} {s : Generator} : g.Reachable → g.node? id = some n →
      n.behavior = .list s → s.formulasStale = false → Generator.formulasOf s.sources = .ok k →
      Breaking id k 0 g
  | edit {lists : Nat} {g : Graph} (a : Action) : a.isFrame = false →
      (∀ n, a.Brings g n → n.id ≠ id) → Breaking id k lists g → Breaking id k lists (a.apply g)
  | frame {lists : Nat} {g : Graph} {done rest : List NodeId} {n : Node} {s : Generator}
      (poll : Poll) (f : Clock → Clock) : g.ids = done ++ id :: rest →
      g.node? id = some n → n.behavior = .list s → s.Breaks k → Breaking id k lists g →
      Breaking id k
        (lists + (postsIn ((g.withClock f).moment poll) (g.inFrame poll f done) n).length)
        ((g.withClock f).evaluate poll)

theorem Breaking.standing {id : NodeId} {k : FormulaSlots} {lists : Nat} {g : Graph}
    (h : Breaking id k lists g) : Standing g.ids g := by
  induction h with
  | start hg _ _ _ _ => exact hg.standing
  | edit a _ _ _ ih => exact standing_invariant.apply a ih
  | frame poll f _ _ _ _ _ ih => exact standing_invariant.frame poll f ih

/-- In such a run the list keeps its formulas. -/
theorem Breaking.holds {id : NodeId} {k : FormulaSlots} {lists : Nat} {g : Graph}
    (h : Breaking id k lists g) {n : Node} (hn : g.node? id = some n) :
    n.OfList fun _ => Generator.Holds k lists := by
  induction h generalizing n with
  | @start g n₀ s hg hn₀ hs hfresh hk =>
      rw [hn₀] at hn
      cases hn
      have hcoherent := (hg.coherent id n₀ hn₀).state hs
      unfold Node.OfList
      rw [hs]
      exact ⟨hcoherent.formulas hfresh k hk, fun _ => Or.inr (Or.inr ⟨k, hk⟩)⟩
  | @edit lists g a ha hspares _ ih =>
      obtain ⟨n₀, hedited, hn₀ | hbrought⟩ := descends_apply g ha id n hn
      · exact (Node.durable_ofList fun _ => Generator.durable_holds k lists).edited hedited (ih hn₀)
      · have hid : n₀.id = id := (Node.Edited.evolves hedited).id.symm.trans (id_of_node? hn)
        exact absurd hid (hspares n₀ hbrought)
  | @frame lists g done rest n₀ s poll f hids hn₀ hs hbreaks hrun ih =>
      have hw := hrun.standing.1
      have hbefore := (node?_before_turn hw.nodup hids poll f).trans hn₀
      rw [node?_after_turn hw.nodup hids, inFrame_append, node?_runNode hbefore, if_pos rfl] at hn
      cases hn
      have hholds := (ih hn₀).state hs
      unfold Node.OfList
      rw [Node.behavior_of_list hs]
      unfold postsIn
      rw [Node.posts_of_list hs]
      exact (s.turned _).holds hholds hbreaks

/-- While some source of a list is broken and those before it are the ones that compiled last, each
turn leaves the output alone or puts the list on it that is made of the last formulas that compiled
together; and each turn leaves an error until such a list has been made. -/
theorem unmixed_after_turn {id : NodeId} {k : FormulaSlots} {lists : Nat} {g : Graph}
    (h : Breaking id k lists g) (poll : Poll) (f : Clock → Clock) {done rest : List NodeId}
    (hids : g.ids = done ++ id :: rest) {n : Node} (hn : g.node? id = some n) {s : Generator}
    (hs : n.behavior = .list s) (hbreaks : s.Breaks k) :
    ∃ m s', (g.inFrame poll f (done ++ [id])).node? id = some m ∧ m.behavior = .list s' ∧
      (m.ports.firstValue? = n.ports.firstValue? ∨
        ∃ list, { s' with compiled := k }.made
            ((g.inFrame poll f (done ++ [id])).readingsOf m) = .ok list ∧
          ∃ out, m.ports.firstValue? = some out ∧ out.Agrees list) ∧
      (lists + (postsIn ((g.withClock f).moment poll) (g.inFrame poll f done) n).length = 0 →
        s'.error ≠ none) := by
  have hstanding := h.standing
  have hbefore := (node?_before_turn hstanding.1.nodup hids poll f).trans hn
  obtain ⟨hw, hshape⟩ : Standing (id :: rest ++ done) (g.inFrame poll f done) := by
    have hstart := hstanding.withClock f
    rw [hids] at hstart
    exact standing_invariant.turns _ hstart
  have hports := hw.ports_indexed hbefore
  obtain ⟨c, hc⟩ := (hshape.sound n (mem_of_nodeIn? hbefore)).exists_cell_of_list hs
  have hholds := (h.holds hn).state hs
  rw [inFrame_append]
  generalize (g.withClock f).moment poll = now
  generalize g.inFrame poll f done = before at hbefore hw ⊢
  have hturn := s.turned (n.readings now (supplyOf before.nodes n))
  have hposts : (n.outcome now (supplyOf before.nodes n)).2 = _ := Node.posts_of_list hs
  have hcell := hw.cell_readingsOf hbefore now
  refine ⟨(n.takeTurn now (supplyOf before.nodes n)).1, _, ?_, Node.behavior_of_list hs, ?_, ?_⟩
  · rw [node?_runNode hbefore, if_pos rfl]
  · rcases hturn.posts_of_breaks hholds hbreaks with hnone | ⟨list, hpost, hmade⟩
    · exact Or.inl (Node.firstValue?_of_silent hports (hposts.trans hnone))
    · refine Or.inr ⟨list, ?_, Node.firstValue?_of_publish hports hc (hposts.trans hpost)⟩
      rw [← hmade]
      exact (Generator.made_congr hcell _).symm
  · unfold postsIn
    rw [hposts]
    exact hturn.error_of_breaks hholds hbreaks

end Graph

end Patchbay

/-! ## With the standard engine -/

namespace Patchbay.Graph

/-- A list that has been made, and whose formula has then been broken. -/
def brokenList : Graph :=
  sizedList.run [.step Poll.none 0, .set ⟨2⟩ (.componentFormula 0 "(")]

/-- In the next frame the broken formula is reported. -/
theorem unmixed_after_turn_of_brokenList :
    ∃ k n s, Breaking ⟨2⟩ k 0 brokenList ∧ brokenList.ids = [⟨0⟩] ++ ⟨2⟩ :: [] ∧
      brokenList.node? ⟨2⟩ = some n ∧ n.behavior = .list s ∧ s.Breaks k ∧
      ∃ m s', (brokenList.inFrame Poll.none (·.step 0) ([⟨0⟩] ++ [⟨2⟩])).node? ⟨2⟩ = some m ∧
        m.behavior = .list s' ∧ s'.error ≠ none := by
  have hstart : (sizedList.run [.step Poll.none 0]).Reachable := Reachable.run ⟨_, _, rfl⟩ _
  have hrun : Breaking ⟨2⟩ _ 0 brokenList :=
    .edit (.set ⟨2⟩ (.componentFormula 0 "(")) rfl (fun _ hn => hn.elim)
      (.start hstart rfl rfl rfl rfl)
  have hids : brokenList.ids = [⟨0⟩] ++ ⟨2⟩ :: [] := by decide
  refine ⟨_, _, _, hrun, hids, rfl, rfl, ⟨_, rfl⟩, ?_⟩
  obtain ⟨m, s', hm, hs', -, herror⟩ :=
    unmixed_after_turn hrun Poll.none (·.step 0) hids (n := _) rfl rfl ⟨_, rfl⟩
  exact ⟨m, s', hm, hs', herror rfl⟩

/-- A list of pairs of which both formulas have been replaced, the second one by a broken one, and
whose size has changed a frame later. -/
def mixedList : Graph :=
  sizedList.run [.set ⟨2⟩ (.element .vector2), .set ⟨2⟩ (.componentFormula 1 "j"),
    .step Poll.none 0, .set ⟨2⟩ (.componentFormula 0 "k"), .set ⟨2⟩ (.componentFormula 1 "("),
    .step Poll.none 0, .set ⟨0⟩ (.constant (.uint 2))]

/-- In the next frame a list is made of the first new formula and the second old one, and nothing
is reported. -/
theorem mixed_of_mixedList :
    mixedList.Reachable ∧ mixedList.ids = [⟨0⟩] ++ ⟨2⟩ :: [] ∧
      ∃ m s' e list, (mixedList.inFrame Poll.none (·.step 0) ([⟨0⟩] ++ [⟨2⟩])).node? ⟨2⟩ = some m ∧
        m.behavior = .list s' ∧ Generator.compileSlot s'.sources.y = .error e ∧ s'.error = none ∧
        s'.compiled.x.map Formula.source = some "k" ∧
        s'.compiled.y.map Formula.source = some "j" ∧
        s'.made ((mixedList.inFrame Poll.none (·.step 0) ([⟨0⟩] ++ [⟨2⟩])).readingsOf m) =
          .ok list ∧
        m.ports.firstValue? = some list :=
  ⟨Reachable.run ⟨_, _, rfl⟩ _, by decide, _, _, _, _, rfl, rfl, rfl, rfl, rfl, rfl, rfl, rfl⟩

end Patchbay.Graph
