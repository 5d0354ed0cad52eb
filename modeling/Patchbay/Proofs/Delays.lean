import Patchbay.Formula.Basic
import Patchbay.Proofs.Evolution
import Patchbay.Proofs.Resumption
/-!
How late a delay is.

A delay node keeps nothing of the past: in its turn it copies what its
input shows then.  When the producer has its turn later in the frame, that is
what the producer published in the frame before, so the copy is one frame
late; when the producer has had its turn already, the copy is not late at
all.  A delay runs before all nodes of other classes, so the first is what
happens, but for producers of its own class: a delay that is fed by one which
stands before it passes the value on in the same frame.
-/

namespace Patchbay.Graph

/-! ## Which of two nodes has its turn first -/

variable [Formula.Engine]

/-- A node that has its turn before another one is of no later class. -/
theorem not_before_of_done {g : Graph} (hg : g.ids.Nodup) (hsorted : Sorted g.nodes)
    {done rest : List NodeId} {d p : NodeId} (hids : g.ids = done ++ d :: rest) (hp : p ∈ done)
    {n q : Node} (hn : g.node? d = some n) (hq : g.node? p = some q) :
    n.priority.before q.priority = false := by
  obtain ⟨front, back, hnodes, hfront, hback⟩ := List.map_eq_append_iff.mp hids
  obtain ⟨m, back, rfl, hm, -⟩ := List.map_eq_cons_iff.mp hback
  rw [← hfront] at hp
  obtain ⟨q', hq', hid⟩ := List.mem_map.mp hp
  have hunique : ∀ x ∈ g.nodes, ∀ y, g.node? x.id = some y → y = x := by
    intro x hx y hy
    exact Option.some.inj (hy.symm.trans (nodeIn?_of_mem hg hx))
  have hnm : n = m := hunique m (by rw [hnodes]; simp) n (hm.symm ▸ hn)
  have hqq : q = q' := hunique q' (by rw [hnodes]; simp [hq']) q (hid.symm ▸ hq)
  unfold Sorted at hsorted
  rw [hnodes, List.map_append] at hsorted
  rw [hnm, hqq]
  exact (List.pairwise_append.mp hsorted).2.2 _ (List.mem_map_of_mem hq') _ (by simp)

/-- A producer has its turn before its consumer or after it. -/
theorem Wired.before_or_after {g : Graph} (h : g.Wired) {done rest : List NodeId} {d : NodeId}
    (hids : g.ids = done ++ d :: rest) {i : Nat} {a : Address} (ha : g.source? d i = some a) :
    a.producer ∈ done ∨ a.producer ∈ rest := by
  have hmem := (h.producer d i a ha).mem_ids
  rw [hids, List.mem_append, List.mem_cons] at hmem
  rcases hmem with hdone | heq | hrest
  · exact Or.inl hdone
  · exact absurd heq (h.apart d i a ha)
  · exact Or.inr hrest

/-! ## Two frames -/

theorem Reachable.frame {g : Graph} (h : g.Reachable) (frame : Frame) :
    (frame.apply g).Reachable := by
  cases frame with
  | step poll dt => exact h.apply (.step poll dt)
  | tick poll now => exact h.apply (.tick poll now)

theorem ids_frame (frame : Frame) (g : Graph) : (frame.apply g).ids = g.ids := by
  obtain ⟨poll, f, hframe⟩ := frame.apply_eq
  rw [hframe]
  exact Invariant.ids_turns _ _ _

/-- What a delay shows after a frame: what its source showed at its turn. -/
theorem Reachable.delayed {g : Graph} (h : g.Reachable) (poll : Poll) (f : Clock → Clock)
    {done rest : List NodeId} {d : NodeId} (hids : g.ids = done ++ d :: rest) {n : Node}
    (hn : ((g.withClock f).evaluate poll).node? d = some n) (htype : n.type = .feedback)
    {a : Address} (ha : n.watchedSource? = some a) {c : Cell}
    (hc : (g.inFrame poll f (done ++ [d])).cellOf? a = some c) (hvalue : c.value.isEmpty = false) :
    ∃ out, n.ports.firstValue? = some out ∧ out.Agrees c.value := by
  have hnodup := h.wired.nodup
  have hbefore := h.sustained_inFrame poll f hids
  rw [node?_after_turn hnodup hids] at hn
  rw [inFrame_append] at hn hc
  obtain ⟨n₀, hn₀⟩ := hbefore.1.2.exists_next
  rw [node?_runNode hn₀, if_pos rfl] at hn
  cases hn
  have hread : (runNode ((g.withClock f).moment poll) (g.inFrame poll f done) d).reading?
      (n₀.takeTurn ((g.withClock f).moment poll) (supplyOf (g.inFrame poll f done).nodes n₀)).1
        relayInput = some c := by
    obtain ⟨name, i, hname, hi, hs⟩ := Node.watchedSource?_eq_some.mp ha
    rw [htype] at hname
    cases hname
    exact reading?_eq_some.mpr ⟨i, a, hi, hs, hc, hvalue⟩
  rw [Node.takeTurn_type] at htype
  exact hbefore.relay hn₀ _ (Or.inr htype) hread

/-- A delay that reads from one output over two frames; frames attach nothing, so a source that is
there at the end was there all along.  When the producer has its turn after the delay, the delay
shows after the second frame what the output showed after the first one, and that is so for every
producer of a later class.  When the producer has its turn before the delay, the
delay shows what the output shows after the second frame. -/
theorem delay_after_frames {g : Graph} (h : g.Reachable) (first second : Frame)
    {done rest : List NodeId} {d : NodeId} (hids : g.ids = done ++ d :: rest) {n : Node}
    (hn : (second.apply (first.apply g)).node? d = some n) (htype : n.type = .feedback)
    {a : Address} (ha : n.watchedSource? = some a) {c : Cell}
    (hc : (first.apply g).cellOf? a = some c) (hvalue : c.value.isEmpty = false) :
    (a.producer ∈ done ∨ a.producer ∈ rest) ∧
      (∀ q, (second.apply (first.apply g)).node? a.producer = some q →
        n.priority.before q.priority = true → a.producer ∈ rest) ∧
      (a.producer ∈ rest → ∃ out, n.ports.firstValue? = some out ∧ out.Agrees c.value) ∧
      (a.producer ∈ done → ∀ c', (second.apply (first.apply g)).cellOf? a = some c' →
        c'.value.isEmpty = false → ∃ out, n.ports.firstValue? = some out ∧ out.Agrees c'.value) := by
  have hk := h.frame first
  rw [← ids_frame first] at hids
  generalize first.apply g = k at *
  have hlater := hk.frame second
  have hids' : (second.apply k).ids = done ++ d :: rest := (ids_frame second k).trans hids
  have hsplit : k.ids = (done ++ [d]) ++ rest := by
    rw [hids, List.append_assoc]
    rfl
  have hboth : a.producer ∈ rest → a.producer ∉ done ++ [d] := by
    intro hrest hdone
    have hnodup := hk.wired.nodup
    rw [hsplit] at hnodup
    exact (List.nodup_append.mp hnodup).2.2 _ hdone _ hrest rfl
  obtain ⟨i, hsource⟩ := source?_of_watchedSource? hn ha
  have hplace := hlater.wired.before_or_after hids' hsource
  obtain ⟨poll, f, hframe⟩ := second.apply_eq
  refine ⟨hplace, fun q hq hbefore => hplace.resolve_left fun hdone => ?_, fun hrest => ?_,
    fun hdone c' hc' hvalue' => ?_⟩
  · have hnot := not_before_of_done hlater.wired.nodup hlater.standing.2.sorted hids' hdone hn hq
    rw [hbefore] at hnot
    exact nomatch hnot
  · rw [hframe] at hn
    refine hk.delayed poll f hids hn htype ha ?_ hvalue
    rw [cellOf?, node?_inFrame poll f (hboth hrest)]
    exact hc
  · rw [hframe] at hn hc'
    refine hk.delayed poll f hids hn htype ha ?_ hvalue'
    have hlate : a.producer ∉ rest := fun hrest => hboth hrest (List.mem_append_left [d] hdone)
    rw [cellOf?, ← node?_frame poll f hsplit hlate]
    exact hc'

end Patchbay.Graph

/-! ## With the standard engine -/

namespace Patchbay.Graph

/-- A constant that feeds a delay; after a frame the constant is changed. -/
def lagging : Graph :=
  run [.create .value, .create .feedback, .connect ⟨0⟩ 0 ⟨2⟩ 0, .step Poll.none 0,
    .set ⟨0⟩ (.constant (.float ⟨0x40a00000⟩))] (empty "lagging")

/-- The delay shows the changed constant one frame after the constant does. -/
theorem delay_after_frames_of_lagging :
    lagging.Reachable ∧ lagging.ids = [] ++ ⟨2⟩ :: [⟨0⟩] ∧
      ∃ n, ((Frame.step Poll.none 1).apply ((Frame.step Poll.none 1).apply lagging)).node? ⟨2⟩ =
          some n ∧
        n.type = .feedback ∧ n.watchedSource? = some ⟨⟨0⟩, 0, 0⟩ ∧
        ((Frame.step Poll.none 1).apply lagging).cellOf? ⟨⟨0⟩, 0, 0⟩ =
          some ⟨.float ⟨0x40a00000⟩, true⟩ ∧
        ∃ out, n.ports.firstValue? = some out ∧ out.Agrees (.float ⟨0x40a00000⟩) := by
  have hreachable : lagging.Reachable := ⟨_, _, rfl⟩
  have hids : lagging.ids = [] ++ ⟨2⟩ :: [⟨0⟩] := by decide +kernel
  have hcell : ((Frame.step Poll.none 1).apply lagging).cellOf? ⟨⟨0⟩, 0, 0⟩ =
      some ⟨.float ⟨0x40a00000⟩, true⟩ := by decide +kernel
  have hnode : ((Frame.step Poll.none 1).apply ((Frame.step Poll.none 1).apply lagging)).node? ⟨2⟩ =
      some _ := rfl
  obtain ⟨-, -, hlate, -⟩ := delay_after_frames hreachable (.step Poll.none 1) (.step Poll.none 1)
    hids hnode rfl rfl hcell rfl
  exact ⟨hreachable, hids, _, hnode, rfl, rfl, hcell, hlate (by simp)⟩

/-- A constant that feeds a delay, and the delay another one behind it; after a frame the constant
is changed. -/
def chained : Graph :=
  run [.create .value, .create .feedback, .create .feedback, .connect ⟨0⟩ 0 ⟨2⟩ 0,
    .connect ⟨2⟩ 0 ⟨5⟩ 0, .step Poll.none 0, .set ⟨0⟩ (.constant (.float ⟨0x40a00000⟩))]
    (empty "chained")

/-- The second delay skips the value that the first one showed after the first of two frames. -/
theorem undelayed_of_chained :
    chained.Reachable ∧ (chained.node? ⟨5⟩).map Node.type = some .feedback ∧
      (((Frame.step Poll.none 0).apply ((Frame.step Poll.none 0).apply chained)).node? ⟨5⟩).bind
          Node.watchedSource? = some ⟨⟨2⟩, 0, 0⟩ ∧
      ((Frame.step Poll.none 0).apply chained).cellOf? ⟨⟨2⟩, 0, 0⟩ = some ⟨.float .one, false⟩ ∧
      ((Frame.step Poll.none 0).apply ((Frame.step Poll.none 0).apply chained)).cellOf?
          ⟨⟨5⟩, 0, 0⟩ = some ⟨.float ⟨0x40a00000⟩, true⟩ ∧
      ¬(Value.float ⟨0x40a00000⟩).Agrees (.float .one) := by
  refine ⟨⟨_, _, rfl⟩, rfl, by decide +kernel, by decide +kernel, by decide +kernel, ?_⟩
  unfold Value.Agrees
  decide +kernel

end Patchbay.Graph
