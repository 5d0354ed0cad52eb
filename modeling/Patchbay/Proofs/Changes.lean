import Mathlib.Data.List.Nodup
import Patchbay.Formula.Basic
import Patchbay.Proofs.Encounters
import Patchbay.Proofs.Resumption
import Patchbay.Proofs.Withdrawals
/-!
What the flag of an output says after a frame.

A turn clears the flags of its node, and posts raise them again.  Most nodes
publish, and one value to each output at most; then a flag is raised when
the value is another one, bit for bit, or when it is one that is unlike
itself, as a number is that is none.  Two types do more: a vector writes the
components it was given without a look at the old ones, and a mesh that is
given a file withdraws what it shows before it can show the same again.
`Node.Restates` lists these cases, and `Graph.flag_after_frame` says that
there are no others.
-/

namespace Patchbay

/-! ## Posts, one to each output -/

def Post.output : Post → Nat
  | publish i _ => i
  | write i _ => i

/-- Posts that publish, one to each output at most. -/
structure Sparing (posts : List Post) : Prop where
  publishes : ∀ p ∈ posts, p = .publish p.output p.value
  nodup : (posts.map Post.output).Nodup

theorem sparing_nil : Sparing [] := ⟨fun _ hp => (nomatch hp), List.nodup_nil⟩

theorem sparing_publish (i : Nat) (v : Value) : Sparing [.publish i v] where
  publishes p hp := by
    rw [List.mem_singleton.mp hp]
    rfl
  nodup := List.nodup_singleton i

/-- A value that may be missing. -/
theorem sparing_toList {α : Type} (i : Nat) (f : α → Value) (x : Option α) :
    Sparing (x.map fun a => Post.publish i (f a)).toList := by
  cases x with
  | none => exact sparing_nil
  | some a => exact sparing_publish i (f a)

theorem Sparing.tail {p : Post} {posts : List Post} (h : Sparing (p :: posts)) : Sparing posts where
  publishes q hq := h.publishes q (List.mem_cons_of_mem p hq)
  nodup := (List.nodup_cons.mp h.nodup).2

/-- Two values for one output are one. -/
theorem Sparing.unique {posts : List Post} (h : Sparing posts) {i : Nat} {v w : Value}
    (hv : Post.publish i v ∈ posts) (hw : Post.publish i w ∈ posts) : v = w := by
  have hsame : Post.publish i v = Post.publish i w := List.inj_on_of_nodup_map h.nodup hv hw rfl
  cases hsame
  rfl

theorem Value.eq_empty {v : Value} (h : v.isEmpty = true) : v = .empty := by
  cases v with
  | empty => rfl
  | _ => exact nomatch h

namespace Cell

theorem publish_of_same {c : Cell} {v : Value} (h : c.value.same v = true) : c.publish v = c :=
  if_pos h

theorem publish_of_not_same {c : Cell} {v : Value} (h : c.value.same v = false) :
    c.publish v = c.set v :=
  if_neg (by simp [h])

/-- Publishing lowers no flag. -/
theorem dirty_publish {c : Cell} (h : c.dirty = true) (v : Value) : (c.publish v).dirty = true := by
  unfold publish
  split
  · exact h
  · rfl

end Cell

/-- A value that is unlike itself is published on an output. -/
def Unlike (posts : List Post) (i : Nat) (v : Value) : Prop :=
  Post.publish i v ∈ posts ∧ v.same v = false

namespace Directory

variable {d : Directory} {posts : List Post} {i : Nat} {c : Cell}

/-- What is published on an output, if anything is, meets the cell as it was. -/
theorem cell?_posts_of_sparing (h : Sparing posts) (hc : d.cell? i = some c) :
    ((∀ v, Post.publish i v ∉ posts) ∧ (posts.foldl post d).cell? i = some c) ∨
      ∃ v, Post.publish i v ∈ posts ∧ (posts.foldl post d).cell? i = some (c.publish v) := by
  induction posts generalizing d c with
  | nil => exact Or.inl ⟨fun _ hv => (nomatch hv), hc⟩
  | cons p posts ih =>
      have hp := h.publishes p List.mem_cons_self
      have hcell := cell?_modifyCell d p.output i (·.publish p.value)
      rw [hc] at hcell
      have hpost : d.post p = d.modifyCell p.output (·.publish p.value) := by rw [hp]; rfl
      rw [List.foldl_cons, hpost]
      by_cases hi : p.output = i
      · rw [if_pos hi] at hcell
        have hother : ∀ v, Post.publish i v ∉ posts := fun v hv =>
          (List.nodup_cons.mp h.nodup).1 (hi ▸ List.mem_map_of_mem hv)
        rcases ih h.tail hcell with ⟨-, hlast⟩ | ⟨v, hv, -⟩
        · exact Or.inr ⟨p.value, List.mem_cons.mpr (Or.inl (by rw [hp, ← hi]; rfl)), hlast⟩
        · exact absurd hv (hother v)
      · rw [if_neg hi] at hcell
        rcases ih h.tail hcell with ⟨hnone, hlast⟩ | ⟨v, hv, hlast⟩
        · refine Or.inl ⟨fun v hv => ?_, hlast⟩
          rcases List.mem_cons.mp hv with heq | hv
          · exact hi (heq ▸ rfl)
          · exact hnone v hv
        · exact Or.inr ⟨v, List.mem_cons_of_mem p hv, hlast⟩

/-- A flag that was down goes up for another value, or for one that is unlike itself. -/
theorem flag_of_sparing (h : Sparing posts) (hc : d.cell? i = some c) (hclean : c.dirty = false) :
    ∃ c', (posts.foldl post d).cell? i = some c' ∧
      (c'.dirty = true ↔ c'.value ≠ c.value ∨ Unlike posts i c'.value) := by
  rcases cell?_posts_of_sparing h hc with ⟨hnone, hlast⟩ | ⟨v, hv, hlast⟩
  · refine ⟨c, hlast, ?_⟩
    simp [hclean, Unlike, hnone]
  · refine ⟨c.publish v, hlast, ?_⟩
    cases hsame : c.value.same v with
    | true =>
        rw [Cell.publish_of_same hsame, hclean]
        refine iff_of_false Bool.false_ne_true ?_
        rintro (hne | ⟨hpublished, hunlike⟩)
        · exact hne rfl
        · rw [← h.unique hpublished hv] at hsame
          exact absurd (hsame.symm.trans hunlike) (by decide)
    | false =>
        rw [Cell.publish_of_not_same hsame]
        refine iff_of_true rfl ?_
        by_cases hvalue : v = c.value
        · exact Or.inr ⟨hv, hvalue ▸ hsame⟩
        · exact Or.inl hvalue

/-- A flag that is up stays so. -/
theorem dirty_of_sparing (h : Sparing posts) (hc : d.cell? i = some c) (hdirty : c.dirty = true) :
    ∃ c', (posts.foldl post d).cell? i = some c' ∧ c'.dirty = true := by
  rcases cell?_posts_of_sparing h hc with ⟨-, hlast⟩ | ⟨v, -, hlast⟩
  · exact ⟨c, hlast, hdirty⟩
  · exact ⟨c.publish v, hlast, Cell.dirty_publish hdirty v⟩

/-- A value that is withdrawn first raises the flag, whatever follows; where there is none, only
what follows counts. -/
theorem flag_of_withdrawn (h : Sparing posts) (hc : d.cell? i = some c) (hclean : c.dirty = false) :
    ∃ c', ((Post.publish i .empty :: posts).foldl post d).cell? i = some c' ∧
      (c'.dirty = true ↔ c'.value ≠ c.value ∨ c.value.isEmpty = false ∨
        Unlike (.publish i .empty :: posts) i c'.value) := by
  have hwithdrawn : (d.post (.publish i .empty)).cell? i = some (c.publish .empty) := by
    have hcell := cell?_modifyCell d i i (·.publish .empty)
    rw [if_pos rfl, hc] at hcell
    exact hcell
  rw [List.foldl_cons]
  cases hempty : c.value.isEmpty with
  | true =>
      have hsame : c.value.same .empty = true := by rw [Value.eq_empty hempty]; rfl
      rw [Cell.publish_of_same hsame] at hwithdrawn
      obtain ⟨c', hlast, hflag⟩ := flag_of_sparing h hwithdrawn hclean
      refine ⟨c', hlast, hflag.trans (or_congr_right ?_)⟩
      constructor
      · rintro ⟨hv, hunlike⟩
        exact Or.inr ⟨List.mem_cons_of_mem _ hv, hunlike⟩
      · rintro (hfalse | ⟨hv, hunlike⟩)
        · exact nomatch hfalse
        · rcases List.mem_cons.mp hv with heq | hv
          · rw [(Post.publish.inj heq).2] at hunlike
            exact nomatch hunlike
          · exact ⟨hv, hunlike⟩
  | false =>
      have hsame : c.value.same .empty = false := by
        cases hv : c.value with
        | empty => rw [hv] at hempty; exact nomatch hempty
        | _ => rfl
      rw [Cell.publish_of_not_same hsame] at hwithdrawn
      obtain ⟨c', hlast, hdirty⟩ := dirty_of_sparing h hwithdrawn rfl
      exact ⟨c', hlast, iff_of_true hdirty (Or.inr (Or.inl rfl))⟩

end Directory

/-! ## Posts of the types -/

section Types
variable {r : Readings}

theorem Arithmetic.sparing_finish (a : Arithmetic) : Sparing (a.finish r).2 := by
  unfold finish
  split
  · exact sparing_publish 0 _
  · exact sparing_nil

theorem Evaluator.sparing_finish [Formula.Engine] (e : Evaluator) : Sparing (e.finish r).2 := by
  unfold finish
  split
  · exact sparing_nil
  · split
    · exact sparing_publish 0 _
    · exact sparing_nil

theorem Generator.Turned.sparing [Formula.Engine] {g next : Generator} {posts : List Post}
    (h : g.Turned r next posts) : Sparing posts := by
  cases h with
  | produced => exact sparing_publish 0 _
  | _ => exact sparing_nil

theorem Selector.sparing_finish (s : Selector) : Sparing (s.finish r).2 := by
  unfold finish missing
  split
  · exact sparing_nil
  · split
    · exact sparing_nil
    · split
      · exact sparing_publish 0 _
      · exact sparing_nil

theorem Joiner.sparing_finish (j : Joiner) : Sparing (j.finish r).2 := by
  unfold finish
  split
  · split
    · exact sparing_publish 0 _
    · exact sparing_nil
  · exact sparing_nil

theorem sparing_relayed (input : String) (refresh : Bool) : Sparing (relayed input refresh r).2 := by
  unfold relayed
  split
  · exact sparing_nil
  · split
    · exact sparing_publish 0 _
    · split
      · exact sparing_publish 0 _
      · exact sparing_nil

theorem Mover.sparing_finish (m : Mover) : Sparing (m.finish r).2 := by
  have hplaced : ∀ (m : Mover) (p : Vec3), Sparing (m.placed p).2 := fun _ _ => sparing_publish 0 _
  unfold finish
  split
  · exact hplaced _ _
  · exact hplaced _ _
  · exact hplaced _ _
  · exact hplaced _ _
  · unfold finishSpline
    split
    · exact sparing_nil
    · simp only
      split
      · exact hplaced _ _
      · exact sparing_nil

theorem Camera.sparing_finish (c : Camera) : Sparing (c.finish r).2 where
  publishes p hp := by
    rcases List.mem_cons.mp hp with rfl | hp
    · rfl
    · rw [List.mem_singleton.mp hp]
      rfl
  nodup := by
    show [0, 1].Nodup
    decide

/-- The result of a load. -/
theorem MeshSource.sparing_polled (poll : Load → LoadPoll (Except LoadError MeshData))
    (m : MeshSource) : Sparing (m.polled poll).2 := by
  have hsettled : ∀ result, Sparing (m.settled result).2 := by
    intro result
    cases result with
    | ok mesh => exact sparing_publish 0 _
    | error e => exact sparing_publish 0 _
  unfold polled
  split
  · split
    · exact sparing_nil
    · exact hsettled _
    · exact hsettled _
  · exact sparing_nil

/-- All posts are sparing but those of a vector that has been given components, and of a mesh that
has been given a file. -/
theorem Behavior.sparing_finish [Formula.Engine] (now : Moment) (id : NodeId) {b : Behavior}
    (hvector : ∀ q v, b = .vector q → q.pending ≠ some v)
    (hmesh : ∀ m path, b = .mesh m → m.pendingPath ≠ some path) :
    Sparing ((b.plan now id).finish r).2 := by
  cases b with
  | value s =>
      show Sparing (s.plan.finish r).2
      unfold Constant.plan
      split
      · exact sparing_nil
      · exact sparing_publish 0 _
  | vector q =>
      have hnone : q.pending = none :=
        Option.eq_none_iff_forall_ne_some.mpr fun v => hvector q v rfl
      show Sparing (q.pending.map fun v => Post.write 0 (Quadruple.array v)).toList
      rw [hnone]
      exact sparing_nil
  | color s => exact sparing_toList 0 _ s.pending
  | math s => exact s.sparing_finish
  | function s => exact s.resized.recompiled.sparing_finish
  | list s => exact (s.turned r).sparing
  | listAccess s => exact s.sparing_finish
  | listJoin s => exact s.sparing_finish
  | time => exact sparing_publish 0 _
  | display s => exact sparing_relayed relayInput s.refresh
  | feedback s => exact sparing_relayed relayInput s.refresh
  | mesh m =>
      have hnone : m.pendingPath = none :=
        Option.eq_none_iff_forall_ne_some.mpr fun path => hmesh m path rfl
      show Sparing ((m.redirected now id).2 ++ ((m.redirected now id).1.polled (now.poll id)).2)
      unfold MeshSource.redirected
      rw [hnone]
      exact m.sparing_polled (now.poll id)
  | camera s => exact s.switched.sparing_finish
  | render s => exact sparing_publish 0 _
  | path s => exact s.switched.sparing_finish
  | worldPos s => exact sparing_toList 0 _ s.pending

end Types

/-! ## Turns -/

variable [Formula.Engine]

namespace Node

/-- The flag of an output can be up although the value has stayed the same: that of a vector which
was given components, of a mesh which was given a file when it showed one, and of an output on
which a value is published that is unlike itself. -/
inductive Restates (n : Node) (posts : List Post) (i : Nat) (before after : Value) : Prop
  | given {q : Quadruple} {v : Vec4} : n.behavior = .vector q → q.pending = some v →
      Restates n posts i before after
  | redirected {m : MeshSource} {path : String} : n.behavior = .mesh m →
      m.pendingPath = some path → before.isEmpty = false → Restates n posts i before after
  | unlike : Unlike posts i after → Restates n posts i before after

section Turns
variable {n : Node} {i : Nat} {c : Cell} (hs : n.Sound) (hn : n.ports.Indexed) (now : Moment)
  (supply : Supply)

include hs in
/-- A sound node has no more outputs than its type. -/
theorem Sound.lt_of_cell (hc : n.ports.cell? i = some c) : i < n.type.outputNames.length := by
  obtain ⟨o, ho, -⟩ := Option.map_eq_some_iff.mp hc
  obtain ⟨hi, -⟩ := List.getElem?_eq_some_iff.mp ho
  rw [← hs.outputs, Directory.outputNames, List.length_map]
  exact hi

theorem outcome_of_given {q : Quadruple} {v : Vec4} (hb : n.behavior = .vector q)
    (hv : q.pending = some v) :
    (n.outcome now supply).2 = [.write 0 (Quadruple.array v)] := by
  unfold outcome plan
  rw [hb]
  show (q.pending.map fun v => Post.write 0 (Quadruple.array v)).toList = _
  rw [hv]
  rfl

theorem outcome_of_redirected {m : MeshSource} {path : String} (hb : n.behavior = .mesh m)
    (hpath : m.pendingPath = some path) :
    ∃ posts, Sparing posts ∧ (n.outcome now supply).2 = .publish 0 .empty :: posts := by
  refine ⟨((m.redirected now n.id).1.polled (now.poll n.id)).2, MeshSource.sparing_polled _ _, ?_⟩
  unfold outcome plan
  rw [hb]
  show (m.redirected now n.id).2 ++ _ = _
  unfold MeshSource.redirected
  rw [hpath]
  rfl

include hs hn in
/-- After its turn an output is flagged when it has another value, or has been given its value
anew. -/
theorem flag_takeTurn (hc : n.ports.cell? i = some c) :
    ∃ c', (n.takeTurn now supply).1.ports.cell? i = some c' ∧
      (c'.dirty = true ↔ c'.value ≠ c.value ∨
        n.Restates (n.outcome now supply).2 i c.value c'.value) := by
  have hheld : (n.heldTurn now supply).ports.cell? i = some c.clearDirty := by
    rw [cell?_heldTurn now supply hn, hc]
    rfl
  have hlt := hs.lt_of_cell hc
  rw [takeTurn_node]
  show ∃ c', ((n.outcome now supply).2.foldl Directory.post
    (n.heldTurn now supply).ports).cell? i = some c' ∧ _
  by_cases hvector : ∃ q v, n.behavior = .vector q ∧ q.pending = some v
  · obtain ⟨q, v, hb, hv⟩ := hvector
    rw [type, hb] at hlt
    obtain rfl : i = 0 := Nat.lt_one_iff.mp hlt
    have hwritten := Directory.cell?_modifyCell (n.heldTurn now supply).ports 0 0
      (·.set (Quadruple.array v))
    rw [if_pos rfl, hheld] at hwritten
    rw [outcome_of_given now supply hb hv]
    exact ⟨_, hwritten, iff_of_true rfl (Or.inr (.given hb hv))⟩
  by_cases hmesh : ∃ m path, n.behavior = .mesh m ∧ m.pendingPath = some path
  · obtain ⟨m, path, hb, hpath⟩ := hmesh
    obtain ⟨posts, hsparing, hposts⟩ := outcome_of_redirected now supply hb hpath
    rw [type, hb] at hlt
    obtain rfl : i = 0 := Nat.lt_one_iff.mp hlt
    rw [hposts]
    obtain ⟨c', hlast, hflag⟩ := Directory.flag_of_withdrawn hsparing hheld rfl
    refine ⟨c', hlast, hflag.trans (or_congr_right ⟨?_, ?_⟩)⟩
    · rintro (hshown | hunlike)
      · exact .redirected hb hpath hshown
      · exact .unlike hunlike
    · rintro (⟨hb', hv⟩ | ⟨-, -, hshown⟩ | hunlike)
      · exact absurd ⟨_, _, hb', hv⟩ hvector
      · exact Or.inl hshown
      · exact Or.inr hunlike
  · have hsparing : Sparing (n.outcome now supply).2 :=
      Behavior.sparing_finish now n.id (fun q v hb hv => hvector ⟨q, v, hb, hv⟩)
        fun m path hb hpath => hmesh ⟨m, path, hb, hpath⟩
    obtain ⟨c', hlast, hflag⟩ := Directory.flag_of_sparing hsparing hheld rfl
    refine ⟨c', hlast, hflag.trans (or_congr_right ⟨.unlike, ?_⟩)⟩
    rintro (⟨hb, hv⟩ | ⟨hb, hpath, -⟩ | hunlike)
    · exact absurd ⟨_, _, hb, hv⟩ hvector
    · exact absurd ⟨_, _, hb, hpath⟩ hmesh
    · exact hunlike

end Turns

end Node

/-! ## Frames -/

namespace Graph

def Frame.poll : Frame → Poll
  | step poll _ => poll
  | tick poll _ => poll

/-- The reading of the clock that a frame begins with. -/
def Frame.read : Frame → Clock → Clock
  | step _ dt => (·.step dt)
  | tick _ now => (·.tick now)

/-- What a node posts in its turn of a frame, when the nodes before it have had theirs. -/
def Frame.posts (frame : Frame) (g : Graph) (x : NodeId) : List Post :=
  match g.node? x with
  | some n =>
    (n.outcome ((g.withClock frame.read).moment frame.poll)
      (supplyOf (g.inFrame frame.poll frame.read (g.ids.takeWhile (· != x))).nodes n)).2
  | none => []

theorem Frame.apply_read (frame : Frame) (g : Graph) :
    frame.apply g = (g.withClock frame.read).evaluate frame.poll := by
  cases frame <;> rfl

/-- The nodes before one in the order of the turns. -/
theorem takeWhile_ids {g : Graph} (hg : g.ids.Nodup) {done rest : List NodeId} {x : NodeId}
    (hids : g.ids = done ++ x :: rest) : g.ids.takeWhile (· != x) = done := by
  have hx : x ∉ done := fun hmem => by
    rw [hids] at hg
    exact (List.nodup_append.mp hg).2.2 x hmem x List.mem_cons_self rfl
  rw [hids, List.takeWhile_append_of_pos fun y hy => by
    simpa using fun hyx : y = x => hx (hyx ▸ hy)]
  simp

/-- What a flag says: after a frame an output is flagged exactly when it has another value than
before, bit for bit, or when its node has given it its value anew. -/
theorem flag_after_frame {g : Graph} (h : g.Reachable) (frame : Frame) {x : NodeId} {n : Node}
    {i : Nat} {c : Cell} (hn : g.node? x = some n) (hc : n.ports.cell? i = some c) :
    ∃ m c', (frame.apply g).node? x = some m ∧ m.ports.cell? i = some c' ∧
      (c'.dirty = true ↔ c'.value ≠ c.value ∨
        n.Restates (frame.posts g x) i c.value c'.value) := by
  have hnodup := h.wired.nodup
  obtain ⟨hports, hsound⟩ := h.standing.steady hn
  obtain ⟨done, rest, hids⟩ := exists_place hn
  have hafter := node?_after_frame hnodup hids frame.poll frame.read hn
  obtain ⟨c', hc', hflag⟩ := Node.flag_takeTurn hsound hports
    ((g.withClock frame.read).moment frame.poll)
    (supplyOf (g.inFrame frame.poll frame.read done).nodes n) hc
  have hposts : frame.posts g x = (n.outcome ((g.withClock frame.read).moment frame.poll)
      (supplyOf (g.inFrame frame.poll frame.read done).nodes n)).2 := by
    unfold Frame.posts
    rw [hn, takeWhile_ids hnodup hids]
  refine ⟨_, c', ?_, hc', ?_⟩
  · rw [frame.apply_read]
    exact hafter
  · rw [hposts]
    exact hflag

end Graph

end Patchbay

/-! ## With the standard engine -/

namespace Patchbay.Graph

/-- A constant that shows no number, and has been given the same again. -/
def unnumbered : Graph :=
  run [.create .value, .set ⟨0⟩ (.constant (.float ⟨0x7fc00000⟩)), .step Poll.none 0,
    .step Poll.none 0, .set ⟨0⟩ (.constant (.float ⟨0x7fc00000⟩))] (empty "unnumbered")

/-- In the next frame it publishes what it shows, and its output is flagged. -/
theorem flag_after_frame_of_unnumbered :
    unnumbered.Reachable ∧ ∃ n m c', unnumbered.node? ⟨0⟩ = some n ∧
      n.ports.cell? 0 = some ⟨.float ⟨0x7fc00000⟩, false⟩ ∧
        ((Frame.step Poll.none 0).apply unnumbered).node? ⟨0⟩ = some m ∧
          m.ports.cell? 0 = some c' ∧ c'.value = .float ⟨0x7fc00000⟩ ∧ c'.dirty = true := by
  have hreachable : unnumbered.Reachable := ⟨_, _, rfl⟩
  have hnode : unnumbered.node? ⟨0⟩ = some _ := rfl
  obtain ⟨m, c', hm, hc', hflag⟩ := flag_after_frame (i := 0) hreachable (.step Poll.none 0) hnode rfl
  have hvalue : c'.value = .float ⟨0x7fc00000⟩ := by
    have hafter : (((Frame.step Poll.none 0).apply unnumbered).node? ⟨0⟩).bind
        (fun m => (m.ports.cell? 0).map Cell.value) = some (.float ⟨0x7fc00000⟩) := by
      decide +kernel
    rw [hm, Option.bind_some, hc'] at hafter
    exact Option.some.inj hafter
  refine ⟨hreachable, _, m, c', hnode, rfl, hm, hc', hvalue, hflag.mpr (Or.inr (.unlike ?_))⟩
  rw [hvalue]
  exact ⟨by decide +kernel, by decide +kernel⟩

/-- A vector of zeros that has been given zeros again. -/
def restated : Graph :=
  run [.create .vector, .step Poll.none 0, .set ⟨0⟩ (.components ⟨.zero, .zero, .zero, .zero⟩)]
    (empty "restated")

/-- Its output is flagged in the next frame, with the payload that it had. -/
theorem flagged_of_restated :
    restated.Reachable ∧
      (restated.node? ⟨0⟩).bind (·.ports.cell? 0) =
        some ⟨.floatArray [.zero, .zero, .zero, .zero], false⟩ ∧
        (((Frame.step Poll.none 0).apply restated).node? ⟨0⟩).bind (·.ports.cell? 0) =
          some ⟨.floatArray [.zero, .zero, .zero, .zero], true⟩ :=
  ⟨⟨_, _, rfl⟩, by decide +kernel, by decide +kernel⟩

end Patchbay.Graph
