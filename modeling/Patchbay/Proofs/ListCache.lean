import Patchbay.Formula.Basic
import Patchbay.Proofs.Lists
/-!
When the list on an output is the one that is called for.

A node that makes lists notes for which kind, extents and variables it made
the last one, and leaves it alone while they stay.  `Generator.Coherent` says
what the note is worth: as long as no edit waits and no error is reported,
the list on the output is the one for the note.  An error is another matter.
It is reported when a size is missing, which can be after a formula was taken
over, and it is withdrawn only when a list is made.  So a node that finds its
old sizes again stays with the old list and with the error, and
`Graph.fresh_after_turn` tells apart exactly these turns from all others.
-/

namespace Patchbay

variable [Formula.Engine]

namespace Generator

/-! ## The list that is called for -/

/-- The list made from scratch of the settings of a node and of what its inputs supply, when all
sources compile and the list can be made. -/
def fresh? (s : Generator) (r : Readings) : Option Value :=
  if (s.sizes r).all Option.isNone then none
  else
    match formulasOf s.sources with
    | .error _ => none
    | .ok k =>
      let names := declaredNames s.extraNames
      let values := names.map fun name => (r.float? name).getD .zero
      (generateList s.element k (extentsOf (s.sizes r))
        (names.zip (values.map Double.ofSingle))).toOption

/-- What it takes to make a list from scratch.  A state that has the declared variables and the
formulas of its sources makes the same list. -/
theorem exists_formulas_of_fresh? {s : Generator} {r : Readings} {list : Value}
    (h : s.fresh? r = some list) :
    s.Sized r ∧ ∃ k, formulasOf s.sources = .ok k ∧
      (s.variableNames = declaredNames s.extraNames → s.compiled = k → s.made r = .ok list) := by
  unfold fresh? at h
  split at h
  · exact nomatch h
  next hsized =>
  split at h
  · cases h
  next k hk =>
  refine ⟨Bool.eq_false_iff.mpr hsized, k, hk, fun hnames hcompiled => ?_⟩
  unfold made values
  rw [hnames, hcompiled]
  cases hmade : generateList s.element k (extentsOf (s.sizes r))
      ((declaredNames s.extraNames).zip (((declaredNames s.extraNames).map fun name =>
        (r.float? name).getD .zero).map Double.ofSingle)) with
  | ok made =>
      simp only [hmade] at h
      cases h
      rfl
  | error e =>
      simp only [hmade] at h
      cases h

/-- What a state knows of the list on its output. -/
structure Coherent (out : Option Value) (s : Generator) : Prop where
  names : s.portsStale = false → s.variableNames = declaredNames s.extraNames
  formulas : s.formulasStale = false → ∀ k, formulasOf s.sources = .ok k → s.compiled = k
  list : s.portsStale = false → s.formulasStale = false → s.error = none →
    ∀ kind size, s.lastShape = some (kind, size) →
      ∃ list, generateList kind s.compiled size
          (s.variableNames.zip (s.lastValues.map Double.ofSingle)) = .ok list ∧
        ∃ o, out = some o ∧ o.Agrees list

/-- A state before its first turn: everything waits. -/
structure Unused (s : Generator) : Prop where
  portsStale : s.portsStale = true
  formulasStale : s.formulasStale = true

theorem Unused.coherent {s : Generator} (h : s.Unused) (out : Option Value) :
    s.Coherent out where
  names hports := by simp [h.portsStale] at hports
  formulas hformulas := by simp [h.formulasStale] at hformulas
  list hports := by simp [h.portsStale] at hports

theorem yields_get : get.Yields Unused := by
  unfold get
  refine BlockReader.yields_after fun element => ?_
  refine BlockReader.yields_after fun dimension => ?_
  refine BlockReader.yields_after fun extraNames => ?_
  refine BlockReader.yields_after fun x => ?_
  refine BlockReader.yields_after fun y => ?_
  refine BlockReader.yields_after fun z => ?_
  refine BlockReader.yields_after fun w => ?_
  exact BlockReader.yields_pure ⟨rfl, rfl⟩

theorem durable_coherent (out : Option Value) : Durable (Coherent out) where
  element _ h := ⟨h.names, h.formulas, h.list⟩
  dimension _ h := ⟨fun hports => (nomatch hports), h.formulas, fun hports => (nomatch hports)⟩
  names _ h := ⟨fun hports => (nomatch hports), h.formulas, fun hports => (nomatch hports)⟩
  expression {s} component source h := by
    rcases s.setExpression_cases component source with hs | ⟨sources, hs⟩
    · rw [hs]
      exact h
    · rw [hs]
      exact ⟨h.names, fun hstale => (nomatch hstale), fun _ hstale => (nomatch hstale)⟩

/-! ## Turns -/

section Turns
variable {g next : Generator} {r : Readings} {posts : List Post} {out : Option Value}

/-- The formulas that a ready state has are those of its sources. -/
theorem Ready.compiled_eq (h : g.Ready next) (hg : g.Coherent out) {k : FormulaSlots}
    (hk : formulasOf next.sources = .ok k) : next.compiled = k := by
  rw [h.sources] at hk
  cases hstale : g.formulasStale with
  | true =>
      have hnext := h.formulas hstale
      rw [hk] at hnext
      cases hnext
      rfl
  | false =>
      rw [h.compiled hstale]
      exact hg.formulas hstale k hk

theorem Coherent.names_resized (hg : g.Coherent out) :
    g.resized.variableNames = declaredNames g.extraNames := by
  unfold resized
  cases hports : g.portsStale with
  | true => rfl
  | false => exact hg.names hports

/-- The variables that a ready state has are those that are declared. -/
theorem Ready.variables_eq (h : g.Ready next) (hg : g.Coherent out) :
    next.variableNames = declaredNames next.extraNames := by
  rw [h.variableNames, h.extraNames]
  exact hg.names_resized

/-- A state that reports an error knows nothing of the list. -/
theorem Coherent.of_error {s : Generator} (hnames : s.variableNames = declaredNames s.extraNames)
    (hformulas : ∀ k, formulasOf s.sources = .ok k → s.compiled = k) (herror : s.error ≠ none) :
    s.Coherent out :=
  ⟨fun _ => hnames, fun _ => hformulas, fun _ _ hnone => absurd hnone herror⟩

/-- What a turn leaves a state knowing, when its posts arrive on the output. -/
theorem Turned.coherent (h : g.Turned r next posts) (hg : g.Coherent out) {out' : Option Value}
    (hsilent : posts = [] → out' = out)
    (hpublish : ∀ v, posts = [.publish 0 v] → ∃ o, out' = some o ∧ o.Agrees v) :
    next.Coherent out' := by
  cases h with
  | @broken e slots hstale hslots =>
      rw [resized_eq]
      exact Coherent.of_error hg.names_resized
        (fun k hk => absurd hk (not_formulasOf_of_error hslots)) (by simp)
  | unsized hready _ =>
      exact Coherent.of_error (hready.variables_eq hg) (fun k hk => hready.compiled_eq hg hk)
        (by simp)
  | reused _ _ =>
      rw [hsilent rfl]
      exact hg
  | @produced k list hready _ _ hmade =>
      refine ⟨fun _ => hready.variables_eq hg, fun _ k hk => hready.compiled_eq hg hk, ?_⟩
      intro _ _ _ kind size hshape
      cases hshape
      exact ⟨list, hmade, hpublish list rfl⟩
  | failed hready _ _ _ =>
      exact Coherent.of_error (hready.variables_eq hg) (fun k hk => hready.compiled_eq hg hk)
        (by simp)

/-- A list that can be made from scratch is made in the turn, unless the last one is reused. -/
theorem Turned.of_fresh (h : g.Turned r next posts) (hg : g.Coherent out) {list : Value}
    (hfresh : next.fresh? r = some list) :
    (g.reuses r = true ∧ next = g ∧ posts = []) ∨
      (¬g.reuses r = true ∧ next.error = none ∧ posts = [.publish 0 list]) := by
  obtain ⟨hsized, k, hk, hmake⟩ := exists_formulas_of_fresh? hfresh
  cases h with
  | broken _ hslots =>
      have hsources : formulasOf g.resized.sources = .ok k := hk
      rw [sources_resized] at hsources
      exact absurd hsources (not_formulasOf_of_error hslots)
  | unsized hready hnone => exact absurd hsized hnone
  | reused _ hreuse => exact Or.inl ⟨hreuse, rfl, rfl⟩
  | @produced next made hready _ hreuse hmade =>
      have hlist : next.made r = .ok list :=
        hmake (hready.variables_eq hg) (hready.compiled_eq hg hk)
      rw [hmade] at hlist
      cases hlist
      exact Or.inr ⟨hreuse, rfl, rfl⟩
  | @failed next e hready _ hreuse hmade =>
      have hlist : next.made r = .ok list :=
        hmake (hready.variables_eq hg) (hready.compiled_eq hg hk)
      rw [hmade] at hlist
      cases hlist

theorem fresh?_congr {r' : Readings} (h : r.cell = r'.cell) (s : Generator) :
    s.fresh? r = s.fresh? r' := by
  obtain ⟨cell, refused⟩ := r
  obtain ⟨cell', refused'⟩ := r'
  cases h
  rfl

/-- A list that is reused without an error is the one made from scratch, when the variables are
the same. -/
theorem Coherent.of_reuse (h : g.Coherent out) (hreuse : g.reuses r = true)
    (herror : g.error = none) (hvalues : g.lastValues = g.values r) {list : Value}
    (hfresh : g.fresh? r = some list) : ∃ o, out = some o ∧ o.Agrees list := by
  simp only [reuses, isCurrent, Bool.and_eq_true, Bool.not_eq_true', beq_iff_eq] at hreuse
  obtain ⟨⟨hports, hformulas⟩, hshape, -⟩ := hreuse
  obtain ⟨made, hmade, hout⟩ := h.list hports hformulas herror _ _ hshape
  obtain ⟨-, k, hk, hmake⟩ := exists_formulas_of_fresh? hfresh
  rw [hvalues] at hmade
  cases hmade.symm.trans (hmake (h.names hports) (h.formulas hformulas k hk))
  exact hout

end Turns

end Generator

/-! ## Nodes -/

namespace Behavior

theorem unused_initial (t : NodeType) : (initial t).OfList Generator.Unused := by
  cases t with
  | list => exact ⟨rfl, rfl⟩
  | _ => trivial

theorem yields_unused (t : NodeType) : (get t).Yields fun b => b.OfList Generator.Unused := by
  cases t with
  | list => exact Generator.yields_get.map fun _ h => h
  | listJoin | time | display | feedback => exact BlockReader.yields_pure trivial
  | _ => exact BlockReader.yields_map fun _ => trivial

end Behavior

/-- What a node knows of the list on its output, at all times. -/
theorem Node.coherent_lasting : Lasting (OfList Generator.Coherent) where
  toDurable := durable_ofList Generator.durable_coherent
  turn {n} now supply hn hsound h := by
    refine ofList_takeTurn fun s hs => ?_
    obtain ⟨c, hc⟩ := hsound.exists_cell_of_list hs
    have hposts : (n.outcome now supply).2 = _ := posts_of_list hs
    refine (s.turned _).coherent (h.state hs) (fun hnone => ?_) (fun v hv => ?_)
    · exact firstValue?_of_silent hn (hposts.trans hnone)
    · exact firstValue?_of_publish hn hc (hposts.trans hv)

/-! ## Graphs -/

namespace Graph

theorem Reachable.coherent {g : Graph} (h : g.Reachable) :
    g.Throughout (Node.OfList Generator.Coherent) := by
  refine h.throughout Node.coherent_lasting fun a g n hn => ?_
  have hunused := Action.behavior_of_brings Behavior.unused_initial Behavior.yields_unused hn
  unfold Node.OfList
  cases hb : n.behavior with
  | list s =>
      rw [hb] at hunused
      exact Generator.Unused.coherent hunused _
  | _ => trivial

/-- After each of its turns a node has no error and the list that is called for, except that it may
have left the list made last alone.  Then it still reports the error it reported before, if any;
and if it reported none, the list is the one that is called for as long as the variables are the
same bit for bit. -/
theorem fresh_after_turn {g : Graph} (h : g.Reachable) (poll : Poll) (f : Clock → Clock)
    {done rest : List NodeId} {id : NodeId} (hids : g.ids = done ++ id :: rest) {n : Node}
    (hn : (g.inFrame poll f done).node? id = some n) {s : Generator} (hs : n.behavior = .list s) :
    ∃ m s', (g.inFrame poll f (done ++ [id])).node? id = some m ∧ m.behavior = .list s' ∧
      ∀ list, s'.fresh? ((g.inFrame poll f (done ++ [id])).readingsOf m) = some list →
        (s'.error = none ↔
          (s.reuses ((g.inFrame poll f (done ++ [id])).readingsOf m) = true → s.error = none)) ∧
        ((s.reuses ((g.inFrame poll f (done ++ [id])).readingsOf m) = true →
            s.error = none ∧
              s.lastValues = s.values ((g.inFrame poll f (done ++ [id])).readingsOf m)) →
          ∃ out, m.ports.firstValue? = some out ∧ out.Agrees list) := by
  obtain ⟨⟨hw, hshape⟩, -⟩ := h.sustained_inFrame poll f hids
  have hcoherent := (h.coherent.inFrame Node.coherent_lasting h poll f hids id n hn).state hs
  have hports := hw.ports_indexed hn
  obtain ⟨c, hc⟩ := (hshape.sound n (mem_of_nodeIn? hn)).exists_cell_of_list hs
  rw [inFrame_append]
  generalize (g.withClock f).moment poll = now
  generalize g.inFrame poll f done = before at hn hw ⊢
  refine ⟨(n.takeTurn now (supplyOf before.nodes n)).1, _, ?_, Node.behavior_of_list hs, ?_⟩
  · rw [node?_runNode hn, if_pos rfl]
  have hcell := hw.cell_readingsOf hn now
  intro list hfresh
  rw [← Generator.fresh?_congr hcell] at hfresh
  rw [← Generator.reuses_congr hcell, ← Generator.values_congr hcell]
  have hposts : (n.outcome now (supplyOf before.nodes n)).2 = _ := Node.posts_of_list hs
  rcases (s.turned _).of_fresh hcoherent hfresh with ⟨hreuse, hsame, hnone⟩ | ⟨hmade, herror, hpost⟩
  · rw [hsame] at hfresh ⊢
    refine ⟨⟨fun herror _ => herror, fun herror => herror hreuse⟩, fun hgood => ?_⟩
    obtain ⟨herror, hvalues⟩ := hgood hreuse
    rw [Node.firstValue?_of_silent hports (hposts.trans hnone)]
    exact hcoherent.of_reuse hreuse herror hvalues hfresh
  · refine ⟨⟨fun _ hreuse => absurd hreuse hmade, fun _ => herror⟩, fun _ => ?_⟩
    exact Node.firstValue?_of_publish hports hc (hposts.trans hpost)

end Graph

end Patchbay

/-! ## With the standard engine -/

namespace Patchbay.Graph

/-- A list of one element that has just been given its size. -/
def sizedList : Graph :=
  run [.create .value, .set ⟨0⟩ (.constant (.uint 1)), .create .list, .connect ⟨0⟩ 0 ⟨2⟩ 0]
    (empty "sized")

/-- In the next frame the list is made. -/
theorem fresh_after_turn_of_sizedList :
    sizedList.Reachable ∧ sizedList.ids = [⟨0⟩] ++ ⟨2⟩ :: [] ∧
      ∃ n s, (sizedList.inFrame Poll.none (·.step 0) [⟨0⟩]).node? ⟨2⟩ = some n ∧
        n.behavior = .list s ∧
        ∃ m s' list, (sizedList.inFrame Poll.none (·.step 0) ([⟨0⟩] ++ [⟨2⟩])).node? ⟨2⟩ = some m ∧
          m.behavior = .list s' ∧
          s'.fresh? ((sizedList.inFrame Poll.none (·.step 0) ([⟨0⟩] ++ [⟨2⟩])).readingsOf m) =
            some list ∧
          s'.error = none ∧ ∃ out, m.ports.firstValue? = some out ∧ out.Agrees list := by
  have hreachable : sizedList.Reachable := ⟨_, _, rfl⟩
  have hids : sizedList.ids = [⟨0⟩] ++ ⟨2⟩ :: [] := by decide
  refine ⟨hreachable, hids, _, _, rfl, rfl, ?_⟩
  obtain ⟨m, s', hm, hs', hlist⟩ :=
    fresh_after_turn hreachable Poll.none (·.step 0) hids (n := _) rfl rfl
  obtain ⟨list, hfresh⟩ : ∃ list, s'.fresh?
      ((sizedList.inFrame Poll.none (·.step 0) ([⟨0⟩] ++ [⟨2⟩])).readingsOf m) = some list := by
    cases hm
    cases hs'
    exact ⟨_, rfl⟩
  obtain ⟨herror, hout⟩ := hlist list hfresh
  refine ⟨m, s', list, hm, hs', hfresh, herror.mpr ?_, hout ?_⟩
  · intro hreuse
    exact nomatch hreuse
  · intro hreuse
    exact nomatch hreuse

/-- The list when its size has been taken away for a frame and given back. -/
def resizedList : Graph :=
  sizedList.run [.step Poll.none 0, .disconnect ⟨2⟩ 0, .step Poll.none 0, .connect ⟨0⟩ 0 ⟨2⟩ 0]

/-- In the next frame the list is left alone and the error stays, although nothing is missing. -/
theorem error_of_resizedList :
    resizedList.Reachable ∧ resizedList.ids = [⟨0⟩] ++ ⟨2⟩ :: [] ∧
      ∃ m s' list,
        (resizedList.inFrame Poll.none (·.step 0) ([⟨0⟩] ++ [⟨2⟩])).node? ⟨2⟩ = some m ∧
        m.behavior = .list s' ∧
        s'.fresh? ((resizedList.inFrame Poll.none (·.step 0) ([⟨0⟩] ++ [⟨2⟩])).readingsOf m) =
          some list ∧
        s'.error = some (.missingInput "sizex") := by
  have hreachable : resizedList.Reachable := Reachable.run ⟨_, _, rfl⟩ _
  exact ⟨hreachable, by decide, _, _, _, rfl, rfl, rfl, rfl⟩

end Patchbay.Graph
