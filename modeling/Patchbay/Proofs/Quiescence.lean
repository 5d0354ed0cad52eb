import Mathlib.Data.List.Induction
import Patchbay.Formula.Basic
import Patchbay.Proofs.Likeness
import Patchbay.Proofs.ListCache
import Patchbay.Proofs.Repetition
/-!
A graph that has come to rest stays at rest.

A frame is quiet when it leaves no output flagged and takes no edge away.  In
a quiet frame every post brought what its cell held already, and every node
kept its sources.  In the next frame a node is shown what it was shown
before: the producers that precede it have come to rest in the same way, by
induction on the order of the turns, and the others have changed nothing
since they were read, or their cells would be flagged.  So its turn is a
repetition (`Plan.Again`), which publishes the same again, in vain.  Then
that frame is quiet as well.
-/

namespace Patchbay

/-! ## Outputs that nothing is written to -/

namespace Directory

/-- No output is flagged. -/
def Clean (d : Directory) : Prop := ∀ o ∈ d.outputs, o.cell.dirty = false

variable {d : Directory}

theorem Clean.cell? (h : d.Clean) {j : Nat} {c : Cell} (hc : d.cell? j = some c) :
    c.dirty = false := by
  obtain ⟨o, ho, rfl⟩ := Option.map_eq_some_iff.mp hc
  exact h o (List.mem_of_getElem? ho)

theorem Clean.congr (h : d.Clean) {k : Directory} (hk : k.outputs = d.outputs) : k.Clean := by
  intro o ho
  exact h o (hk ▸ ho)

/-- Nothing is there to be cleared. -/
theorem Clean.clearDirty (h : d.Clean) : d.clearDirty.outputs = d.outputs := by
  refine (List.map_congr_left fun o ho => ?_).trans (List.map_id _)
  obtain ⟨name, value, dirty⟩ := o
  cases h _ ho
  rfl

/-- A change of a cell that leaves it as it is. -/
theorem outputs_modifyCell {i : Nat} {f : Cell → Cell} (h : ∀ c, d.cell? i = some c → f c = c) :
    (d.modifyCell i f).outputs = d.outputs := by
  apply List.ext_getElem?
  intro j
  simp only [modifyCell, List.getElem?_modify]
  cases ho : d.outputs[j]? with
  | none => rfl
  | some o =>
      by_cases hij : i = j
      · subst hij
        have hsame : f o.cell = o.cell := h o.cell (by rw [Directory.cell?, ho]; rfl)
        simp [hsame]
      · simp [hij]

/-- Publishing what the cells hold already changes nothing. -/
theorem outputs_posts_of_same {posts : List Post}
    (h : ∀ x ∈ posts, ∃ i v, x = .publish i v ∧
      ∀ c, d.cell? i = some c → c.value.same v = true) :
    (posts.foldl post d).outputs = d.outputs := by
  induction posts generalizing d with
  | nil => rfl
  | cons x posts ih =>
      obtain ⟨i, v, rfl, hsame⟩ := h x List.mem_cons_self
      have hpost : (d.post (.publish i v)).outputs = d.outputs :=
        outputs_modifyCell fun c hc => by rw [Cell.publish, if_pos (hsame c hc)]
      rw [List.foldl_cons, ih, hpost]
      intro y hy
      obtain ⟨j, w, rfl, hold⟩ := h y (List.mem_cons_of_mem _ hy)
      exact ⟨j, w, rfl, fun c hc => hold c (Directory.cell?_congr hpost j ▸ hc)⟩

/-- A post after which no output is flagged brought what the cell held. -/
theorem Clean.of_post {x : Post} (h : (d.post x).Clean) : (d.post x).outputs = d.outputs ∧
    ∀ i v, x = .publish i v → ∀ c, d.cell? i = some c → c.value.same v = true := by
  cases x with
  | publish i v =>
      have hsame : ∀ c, d.cell? i = some c → c.value.same v = true := by
        intro c hc
        have hcell : (d.post (.publish i v)).cell? i = some (c.publish v) := by
          have hmodify := cell?_modifyCell d i i (·.publish v)
          rw [if_pos rfl, hc] at hmodify
          exact hmodify
        have hclean := h.cell? hcell
        unfold Cell.publish at hclean
        split at hclean
        · next hsame => exact hsame
        · exact nomatch hclean
      refine ⟨outputs_modifyCell fun c hc => ?_, fun j w hpost c hc => ?_⟩
      · rw [Cell.publish, if_pos (hsame c hc)]
      · cases hpost
        exact hsame c hc
  | write i v =>
      refine ⟨outputs_modifyCell fun c hc => ?_, fun j w hpost => nomatch hpost⟩
      have hcell : (d.post (.write i v)).cell? i = some (c.set v) := by
        have hmodify := cell?_modifyCell d i i (·.set v)
        rw [if_pos rfl, hc] at hmodify
        exact hmodify
      exact nomatch h.cell? hcell

/-- When no output is flagged in the end, all that was published was there before. -/
theorem Clean.of_posts {posts : List Post} (h : (posts.foldl post d).Clean) :
    (posts.foldl post d).outputs = d.outputs ∧
      ∀ i v, Post.publish i v ∈ posts → ∀ c, d.cell? i = some c → c.value.same v = true := by
  induction posts generalizing d with
  | nil => exact ⟨rfl, fun i v hx => absurd hx List.not_mem_nil⟩
  | cons x posts ih =>
      obtain ⟨houtputs, hsame⟩ := ih h
      have hfirst : (d.post x).Clean := Clean.congr h houtputs.symm
      obtain ⟨hpost, hfirstSame⟩ := hfirst.of_post
      refine ⟨houtputs.trans hpost, fun i v hx c hc => ?_⟩
      rcases List.mem_cons.mp hx with hx | hx
      · exact hfirstSame i v hx.symm c hc
      · exact hsame i v hx c ((Directory.cell?_congr hpost i).trans hc)

end Directory

/-! ## Gates that take nothing away -/

namespace Turn

variable {supply : Supply}

/-- A gate whose input reads a kind that it takes leaves all sources alone. -/
theorem hold_of_contains {t : Turn} {gate : Gate}
    (h : ∀ c, supply.named? t.ports gate.input = some c → gate.kinds.contains c.kind = true) :
    (t.hold supply gate).dropped = t.dropped ∧
      ∀ i, (t.hold supply gate).ports.source? i = t.ports.source? i := by
  unfold hold
  cases hi : t.ports.inputIndex? gate.input with
  | none => exact ⟨rfl, fun _ => rfl⟩
  | some i =>
      have hread : supply.named? t.ports gate.input = supply.at? t.ports i := by
        rw [Supply.named?, hi, Option.bind_some]
      rw [hread] at h
      have hfit : ((supply.at? t.ports i).map Cell.kind).any (fun k => !gate.kinds.contains k) =
          false := by
        cases hc : supply.at? t.ports i with
        | none => rfl
        | some c => simp [h c hc]
      simp only [hfit, Bool.false_eq_true, if_false]
      exact ⟨trivial, Directory.source?_modifyInput_of_source fun _ => rfl⟩

theorem holdAll_of_contains {gates : List Gate} {t : Turn}
    (h : ∀ gate ∈ gates, ∀ c, supply.named? t.ports gate.input = some c →
      gate.kinds.contains c.kind = true) :
    (t.holdAll supply gates).dropped = t.dropped ∧
      ∀ i, (t.holdAll supply gates).ports.source? i = t.ports.source? i := by
  induction gates generalizing t with
  | nil => exact ⟨rfl, fun _ => rfl⟩
  | cons gate gates ih =>
      obtain ⟨hdropped, hsource⟩ := hold_of_contains (h gate List.mem_cons_self)
      have hnamed : ∀ name, supply.named? (t.hold supply gate).ports name =
          supply.named? t.ports name := by
        intro name
        rw [Supply.named?, Supply.named?,
          Directory.inputIndex?_congr (inputNames_hold supply gate t)]
        exact Option.bind_congr fun i _ => supply.at?_of_source (hsource i)
      obtain ⟨hrest, hrestSource⟩ := ih fun next hnext c hc =>
        h next (List.mem_cons_of_mem _ hnext) c (hnamed next.input ▸ hc)
      exact ⟨hrest.trans hdropped, fun i => (hrestSource i).trans (hsource i)⟩

end Turn

/-! ## A turn that repeats a quiet one -/

/-- Nothing that is supplied is flagged. -/
def Supply.Still (s : Supply) : Prop :=
  ∀ (i : Nat) (c : Cell), s[i]?.bind id = some c → c.dirty = false

variable [Formula.Engine]

namespace Behavior

theorem Steady.takeTurn {n : Node} (h : n.behavior.Steady) (now : Moment) (supply : Supply) :
    (n.takeTurn now supply).1.behavior.Steady where
  timeless := by
    have htype := Node.takeTurn_type now supply n
    unfold Node.type at htype
    rw [htype]
    exact h.timeless
  idle := Node.idle_takeTurn h.idle now supply
  compiles := by
    refine Node.ofList_takeTurn fun s hs => ?_
    have hcompiles := h.compiles
    rw [hs] at hcompiles
    obtain ⟨k, hk⟩ := hcompiles
    exact ⟨k, by rw [(s.turned _).sources]; exact hk⟩

end Behavior

namespace Node

/-- What a rest leaves of a node: its outputs with values and flags, its error and its sources. -/
structure Unmoved (n m : Node) : Prop where
  outputs : m.ports.outputs = n.ports.outputs
  error : m.behavior.error? = n.behavior.error?
  source : ∀ i, m.ports.source? i = n.ports.source? i

theorem Unmoved.refl (n : Node) : n.Unmoved n := ⟨rfl, rfl, fun _ => rfl⟩

theorem Unmoved.trans {n m k : Node} (h : n.Unmoved m) (h' : m.Unmoved k) : n.Unmoved k where
  outputs := h'.outputs.trans h.outputs
  error := h'.error.trans h.error
  source i := (h'.source i).trans (h.source i)

section Turns
variable {n m : Node} {now : Moment} (now' : Moment) {supply supply' : Supply}
  (hn : n.ports.Indexed) (hm : (n.takeTurn now supply).1 = m)
  (hlost : (n.takeTurn now supply).2 = [])
include hm hlost

include hn in
/-- A node that loses nothing has the sources it had. -/
theorem source?_of_kept (i : Nat) : m.ports.source? i = n.ports.source? i := by
  apply Option.ext
  intro a
  rw [← hm, takeTurn_source_iff now supply hn, hlost]
  simp

theorem behavior_of_kept : m.behavior = (n.outcome now supply).1 := by
  have hheld : (n.heldTurn now supply).dropped = [] := hlost
  rw [← hm, takeTurn_node, hheld]
  rfl

variable (hsteady : n.behavior.Steady)
include hsteady

/-- The plan of the next turn asks for no inputs, and for the same kinds. -/
theorem plan_again :
    Plan.Again Behavior.error? (n.plan now) (m.plan now') (n.readings now supply) := by
  have hid : m.id = n.id := hm ▸ takeTurn_id now supply n
  rw [plan, plan, behavior_of_kept hm hlost, hid]
  exact hsteady.again now now' n.id _

variable (hsupply : supply.Alike supply')
include hsupply

/-- When the same is supplied, the gates of the next turn take nothing away. -/
theorem heldTurn_again :
    (m.heldTurn now' supply').dropped = [] ∧
      (m.heldTurn now' supply').ports.inputNames = m.ports.inputNames ∧
        ∀ i, (m.heldTurn now' supply').ports.source? i = m.ports.source? i := by
  have hagain := plan_again now' hm hlost hsteady
  have hinputs : m.ports.inputs = (n.heldTurn now supply).ports.inputs :=
    hm ▸ takeTurn_inputs now supply n
  have hresized : m.resizedTurn now' = ⟨m.ports.clearDirty, []⟩ := by
    rw [resizedTurn, hagain.inputs]
    rfl
  have hnamed : ∀ name, (supply'.named? m.ports.clearDirty name).map Cell.value =
      (supply.named? (n.heldTurn now supply).ports name).map Cell.value :=
    hsupply.named? (congrArg (List.map InputPort.name) hinputs) (Directory.source?_congr hinputs)
  rw [heldTurn, hresized, hagain.gates]
  have hkept : ∀ gate ∈ (n.plan now).gates, ∀ c,
      supply'.named? m.ports.clearDirty gate.input = some c →
        gate.kinds.contains c.kind = true := by
    intro gate hgate c hc
    have hvalue := hnamed gate.input
    rw [hc] at hvalue
    obtain ⟨c', hc', hsame⟩ := Option.map_eq_some_iff.mp hvalue.symm
    have hkind := Turn.contains_of_named?_holdAll hgate hc'
    rw [Cell.kind, hsame] at hkind
    exact hkind
  obtain ⟨hdropped, hsource⟩ := Turn.holdAll_of_contains (t := ⟨m.ports.clearDirty, []⟩) hkept
  exact ⟨hdropped, Turn.inputNames_holdAll supply' _ _, hsource⟩

variable (hstill : supply'.Still)
include hstill

/-- The next turn reads the same. -/
theorem readings_again : (n.readings now supply).Repeated (m.readings now' supply') := by
  obtain ⟨hdropped, hnames, hsource⟩ := heldTurn_again now' hm hlost hsteady hsupply
  have hinputs : m.ports.inputs = (n.heldTurn now supply).ports.inputs :=
    hm ▸ takeTurn_inputs now supply n
  refine ⟨?_, fun name c hc => ?_, fun name => ?_⟩
  · funext name
    exact hsupply.named? (hnames.trans (congrArg (List.map InputPort.name) hinputs))
      (fun i => (hsource i).trans (Directory.source?_congr hinputs i)) name
  · obtain ⟨i, -, hat⟩ := Option.bind_eq_some_iff.mp
      (show (Directory.inputIndex? _ name).bind _ = some c from hc)
    unfold Supply.at? at hat
    split at hat
    · exact hstill i c (Option.filter_eq_some_iff.mp hat).1
    · exact nomatch hat
  · show ((m.heldTurn now' supply').dropped.drop _).any _ = false
    rw [hdropped, List.drop_nil]
    rfl

include hn in
/-- After a quiet turn, one in which the same is supplied and nothing of it is flagged leaves the
node at rest. -/
theorem unmoved_takeTurn (hclean : m.ports.Clean) :
    m.Unmoved (m.takeTurn now' supply').1 := by
  have hagain := plan_again now' hm hlost hsteady
  have hrepeated := readings_again now' hm hlost hsteady hsupply hstill
  obtain ⟨hdropped, -, hsource⟩ := heldTurn_again now' hm hlost hsteady hsupply
  have hindexed : m.ports.Indexed := by
    intro i a ha
    rw [source?_of_kept hn hm hlost] at ha
    exact hn i a ha
  -- What the first turn published was on the outputs already.
  have houtputs : m.ports.outputs =
      ((n.outcome now supply).2.foldl Directory.post (n.heldTurn now supply).ports).outputs := by
    rw [← hm, takeTurn_node]
  obtain ⟨hposts, hsame⟩ := Directory.Clean.of_posts (hclean.congr houtputs.symm)
  have hheld : (m.heldTurn now' supply').ports.outputs = m.ports.outputs := by
    rw [(heldTurn_keeps now' supply' hindexed).outputs, hclean.clearDirty]
  refine ⟨?_, ?_, fun i => ?_⟩
  · rw [takeTurn_node]
    show ((m.outcome now' supply').2.foldl Directory.post
      (m.heldTurn now' supply').ports).outputs = _
    rw [Directory.outputs_posts_of_same, hheld]
    intro x hx
    obtain ⟨hfirst, i, v, rfl⟩ := hagain.posts _ hrepeated x hx
    refine ⟨i, v, rfl, fun c hc => hsame i v hfirst c ?_⟩
    rw [← Directory.cell?_congr hposts, ← Directory.cell?_congr houtputs,
      ← Directory.cell?_congr hheld]
    exact hc
  · rw [takeTurn_node, hdropped]
    show (m.outcome now' supply').1.error? = m.behavior.error?
    rw [behavior_of_kept hm hlost]
    exact hagain.error _ hrepeated
  · rw [Directory.source?_congr (takeTurn_inputs now' supply' m)]
    exact hsource i

end Turns

end Node

namespace Graph

/-! ## A frame after a quiet one -/

/-- What a quiet frame makes of a graph: no output is flagged, and no edge is gone. -/
structure Quiet (g k : Graph) : Prop where
  clean : ∀ x n, k.node? x = some n → n.ports.Clean
  edges : ∀ e ∈ g.edges.edges, e ∈ k.edges.edges

/-- All nodes are at rest between the first graph and the second. -/
def Unmoved (g k : Graph) : Prop :=
  ∀ x n, g.node? x = some n → ∃ m, k.node? x = some m ∧ n.Unmoved m

/-- No node does anything by itself. -/
def Steady (g : Graph) : Prop := ∀ x n, g.node? x = some n → n.behavior.Steady

section Frames
variable {g k l : Graph} {poll poll' : Poll} {f f' : Clock → Clock} (hw : g.Wired)
  (hk : (g.withClock f).evaluate poll = k) (hl : (k.withClock f').evaluate poll' = l)
  (hquiet : Quiet g k)
include hw hk hquiet

/-- In a quiet frame no node loses a source. -/
theorem Quiet.lost_eq_nil {done rest : List NodeId} {x : NodeId} (hids : g.ids = done ++ x :: rest)
    {n : Node} (hn : g.node? x = some n) :
    (n.takeTurn ((g.withClock f).moment poll) (supplyOf (g.inFrame poll f done).nodes n)).2 =
      [] := by
  have hports := hw.ports_indexed hn
  rw [List.eq_nil_iff_forall_not_mem]
  intro d hd
  obtain ⟨i, hi⟩ := (Node.heldTurn_keeps _ _ hports).dropped d hd
  have hsource : g.source? x i = some d.address := source?_eq_some.mpr ⟨n, hn, hi⟩
  obtain rfl := hw.indexed x i _ hsource
  have hedge : (⟨x, d.address⟩ : Edge) ∈ k.edges.edges :=
    hquiet.edges _ ((hw.edge_iff ⟨x, d.address⟩).mpr hsource)
  have hafter : k.source? x d.address.input.toNat = some d.address := by
    rw [← hk] at hedge ⊢
    exact ((hw.frame poll f).1.edge_iff ⟨x, d.address⟩).mp hedge
  obtain ⟨m, hm, hms⟩ := source?_eq_some.mp hafter
  rw [← hk, node?_after_frame hw.nodup hids poll f hn] at hm
  cases hm
  exact ((Node.takeTurn_source_iff _ _ hports _ _).mp hms).2 d hd rfl

include hl

/-- In the frame after a quiet one an output shows at the turn of a node what it showed at the
turn before, and is not flagged, if the nodes that precede it are at rest. -/
theorem Quiet.cellOf?_at_turn {done rest : List NodeId} {x : NodeId}
    (hids : g.ids = done ++ x :: rest)
    (hrest : ∀ p ∈ done, ∀ q, k.node? p = some q → ∃ q', l.node? p = some q' ∧ q.Unmoved q')
    {a : Address} (ha : k.HasOutput a.producer a.output.toNat) :
    ∃ c, (k.inFrame poll' f' done).cellOf? a = some c ∧ c.dirty = false ∧
      ∃ old, (g.inFrame poll f done).cellOf? a = some old ∧ c.value = old.value := by
  obtain ⟨q, hq, houtput⟩ := ha
  have hwk : k.Wired := hk ▸ (hw.frame poll f).1
  have hids' : k.ids = done ++ x :: rest := by
    rw [← hids, ← hk]
    exact ids_evaluate poll f g
  obtain ⟨c, hc⟩ : ∃ c, q.ports.cell? a.output.toNat = some c :=
    ⟨_, by rw [Directory.cell?, List.getElem?_eq_getElem houtput]; rfl⟩
  have hclean : c.dirty = false := (hquiet.clean _ q hq).cell? hc
  unfold cellOf?
  rw [node?_at_turn hwk.nodup hids' poll' f', node?_at_turn hw.nodup hids poll f, hk, hl]
  by_cases hdone : a.producer ∈ done
  · obtain ⟨q', hq', hunmoved⟩ := hrest _ hdone q hq
    rw [if_pos hdone, if_pos hdone, hq, hq']
    refine ⟨c, ?_, hclean, c, hc, rfl⟩
    exact (Directory.cell?_congr hunmoved.outputs _).trans hc
  · -- A producer that follows has changed nothing since it was read, or it would be flagged.
    rw [if_neg hdone, if_neg hdone, hq]
    refine ⟨c, hc, hclean, ?_⟩
    rw [← hk] at hq
    obtain ⟨q₀, _, _, hq₀, -, rfl⟩ := exists_turn hw.nodup hq
    obtain ⟨old, hold, hfollows⟩ := Node.cell?_takeTurn _ _ (hw.ports_indexed hq₀) hc
    refine ⟨old, by rw [hq₀]; exact hold, ?_⟩
    rcases hfollows with hdirty | hsame
    · exact absurd (hclean.symm.trans hdirty) Bool.false_ne_true
    · exact hsame

/-- So the node is supplied with what it was supplied with before. -/
theorem Quiet.supplied_again {done rest : List NodeId} {x : NodeId}
    (hids : g.ids = done ++ x :: rest)
    (hrest : ∀ p ∈ done, ∀ q, k.node? p = some q → ∃ q', l.node? p = some q' ∧ q.Unmoved q')
    {n m : Node} (hm : k.node? x = some m) (hid : m.id = n.id)
    (hsource : ∀ i, m.ports.source? i = n.ports.source? i) :
    (supplyOf (g.inFrame poll f done).nodes n).Alike (supplyOf (k.inFrame poll' f' done).nodes m) ∧
      (supplyOf (k.inFrame poll' f' done).nodes m).Still := by
  have hwk : k.Wired := hk ▸ (hw.frame poll f).1
  have hcell : ∀ i a, m.ports.source? i = some a →
      ∃ c, cellAt? (k.inFrame poll' f' done).nodes m.id a = some c ∧ c.dirty = false ∧
        ∃ old, cellAt? (g.inFrame poll f done).nodes n.id a = some old ∧ c.value = old.value := by
    intro i a ha
    have hattached : k.source? x i = some a := source?_eq_some.mpr ⟨m, hm, ha⟩
    have hapart : a.producer ≠ n.id := by
      rw [← hid, id_of_node? hm]
      exact hwk.apart x i a hattached
    rw [hid, cellAt?_of_ne hapart, cellAt?_of_ne hapart]
    exact hquiet.cellOf?_at_turn hw hk hl hids hrest (hwk.producer x i a hattached)
  constructor
  · intro i
    rw [supplied, supplied, ← hsource]
    cases ha : m.ports.source? i with
    | none => rw [Option.bind_none, Option.bind_none]
    | some a =>
        obtain ⟨c, hc, -, old, hold, hsame⟩ := hcell i a ha
        rw [Option.bind_some, Option.bind_some, hc, hold, Option.map_some, Option.map_some, hsame]
  · intro i c hc
    rw [supplied] at hc
    obtain ⟨a, ha, hca⟩ := Option.bind_eq_some_iff.mp hc
    obtain ⟨c', hc', hclean, -⟩ := hcell i a ha
    cases hca.symm.trans hc'
    exact hclean

variable (hsteady : g.Steady)
include hsteady

/-- A node is at rest after its turn if the nodes that precede it are. -/
theorem Quiet.unmoved_turn {done rest : List NodeId} {x : NodeId}
    (hids : g.ids = done ++ x :: rest)
    (hrest : ∀ p ∈ done, ∀ q, k.node? p = some q → ∃ q', l.node? p = some q' ∧ q.Unmoved q')
    {m : Node} (hm : k.node? x = some m) : ∃ m', l.node? x = some m' ∧ m.Unmoved m' := by
  have hwk : k.Wired := hk ▸ (hw.frame poll f).1
  have hids' : k.ids = done ++ x :: rest := by
    rw [← hids, ← hk]
    exact ids_evaluate poll f g
  obtain ⟨n, hn⟩ := exists_node_of_mem_ids (show x ∈ g.ids by rw [hids]; simp)
  have hports := hw.ports_indexed hn
  have hturn : (n.takeTurn ((g.withClock f).moment poll)
      (supplyOf (g.inFrame poll f done).nodes n)).1 = m := by
    have hafter := node?_after_frame hw.nodup hids poll f hn
    rw [hk, hm] at hafter
    exact (Option.some.inj hafter).symm
  have hlost := hquiet.lost_eq_nil hw hk hids hn
  have hid : m.id = n.id := (id_of_node? hm).trans (id_of_node? hn).symm
  obtain ⟨hsupply, hstill⟩ := hquiet.supplied_again hw hk hl hids hrest hm hid
    (Node.source?_of_kept hports hturn hlost)
  have hafter := node?_after_frame hwk.nodup hids' poll' f' hm
  rw [hl] at hafter
  exact ⟨_, hafter, Node.unmoved_takeTurn _ hports hturn hlost (hsteady x n hn) hsupply hstill
    (hquiet.clean x m hm)⟩

/-- The frame after a quiet one leaves all nodes at rest: those that have had their turns are, by
induction on the order of the turns. -/
theorem Quiet.unmoved : Unmoved k l := by
  suffices hdone : ∀ done todo, g.ids = done ++ todo → ∀ x ∈ done, ∀ m, k.node? x = some m →
      ∃ m', l.node? x = some m' ∧ m.Unmoved m' by
    intro x m hm
    have hmem : x ∈ g.ids := by
      rw [← ids_evaluate poll f g, hk]
      exact mem_ids_of_node? hm
    exact hdone g.ids [] (List.append_nil _).symm x hmem m hm
  intro done
  induction done using List.reverseRecOn with
  | nil =>
      intro todo _ x hx
      exact absurd hx List.not_mem_nil
  | append_singleton done y ih =>
      intro todo hids x hx m hm
      rw [List.append_assoc] at hids
      rcases List.mem_append.mp hx with hx | hx
      · exact ih _ hids x hx m hm
      · obtain rfl := List.mem_singleton.mp hx
        exact hquiet.unmoved_turn hw hk hl hsteady hids (ih _ hids) hm

end Frames

/-! ## All frames after a quiet one -/

section Rest
variable {g k l : Graph}

theorem Unmoved.refl (g : Graph) : g.Unmoved g := fun _ n hn => ⟨n, hn, Node.Unmoved.refl n⟩

theorem Unmoved.trans (h : g.Unmoved k) (h' : k.Unmoved l) : g.Unmoved l := by
  intro x n hn
  obtain ⟨m, hm, hnm⟩ := h x n hn
  obtain ⟨p, hp, hmp⟩ := h' x m hm
  exact ⟨p, hp, hnm.trans hmp⟩

/-- Nodes at rest keep their sources, so the graph keeps its edges. -/
theorem Unmoved.source? (h : g.Unmoved k) (hids : k.ids = g.ids) (x : NodeId) (i : Nat) :
    k.source? x i = g.source? x i := by
  cases hn : g.node? x with
  | none =>
      have hnone : k.node? x = none := by
        refine nodeIn?_eq_none.mpr fun hmem => nodeIn?_eq_none.mp hn ?_
        change x ∈ k.ids at hmem
        rwa [hids] at hmem
      rw [Graph.source?, Graph.source?, hn, hnone]
  | some n =>
      obtain ⟨m, hm, hnm⟩ := h x n hn
      rw [Graph.source?, Graph.source?, hn, hm]
      exact hnm.source i

theorem Unmoved.edges (h : g.Unmoved k) (hids : k.ids = g.ids) (hg : g.Wired) (hk : k.Wired)
    (e : Edge) : e ∈ k.edges.edges ↔ e ∈ g.edges.edges := by
  rw [hk.edge_iff, hg.edge_iff, h.source? hids]

theorem Steady.frame (h : g.Steady) (hg : g.ids.Nodup) (poll : Poll) (f : Clock → Clock) :
    Steady ((g.withClock f).evaluate poll) := by
  intro x m hm
  obtain ⟨n, done, rest, hn, -, rfl⟩ := exists_turn hg hm
  exact (h x n hn).takeTurn _ _

/-- The frame after a quiet one is quiet. -/
theorem Unmoved.quiet (h : k.Unmoved l) (hids : l.ids = k.ids) (hk : k.Wired) (hl : l.Wired)
    (hquiet : Quiet g k) : Quiet k l where
  clean x m hm := by
    have hmem : x ∈ k.ids := hids ▸ mem_ids_of_node? hm
    obtain ⟨n, hn⟩ := exists_node_of_mem_ids hmem
    obtain ⟨m', hm', hrest⟩ := h x n hn
    cases hm.symm.trans hm'
    exact (hquiet.clean x n hn).congr hrest.outputs
  edges e he := (h.edges hids hk hl e).mpr he

/-- Whatever frames come after a quiet one, they leave all nodes at rest. -/
theorem Quiet.unmoved_runFrames {g k : Graph} (hw : g.Wired) (hsteady : g.Steady) {poll : Poll}
    {f : Clock → Clock} (hk : (g.withClock f).evaluate poll = k) (hquiet : Quiet g k)
    (frames : List Frame) : k.Unmoved (k.runFrames frames) := by
  induction frames generalizing g k poll f with
  | nil => exact Unmoved.refl k
  | cons frame frames ih =>
      obtain ⟨poll', f', hframe⟩ := frame.apply_eq
      have hwk : k.Wired := hk ▸ (hw.frame poll f).1
      have hl : (k.withClock f').evaluate poll' = frame.apply k := (hframe k).symm
      have hrest : k.Unmoved (frame.apply k) := hquiet.unmoved hw hk hl hsteady
      have hnext : Quiet k (frame.apply k) :=
        hrest.quiet (ids_frame frame k) hwk (hl ▸ (hwk.frame poll' f').1) hquiet
      exact hrest.trans (ih hwk (hk ▸ hsteady.frame hw.nodup poll f) hl hnext)

theorem ids_runFrames (frames : List Frame) (g : Graph) : (g.runFrames frames).ids = g.ids := by
  induction frames generalizing g with
  | nil => rfl
  | cons frame frames ih => exact (ih (frame.apply g)).trans (ids_frame frame g)

end Rest

/-- A graph that has come to rest stays at rest, however it is wired.  Take a graph in which nothing
moves by itself: there is no clock, no mesh has a load under way or to start, and the sources of
all lists compile.  When a frame leaves no output flagged and takes no edge away, then whatever
frames come next, all outputs keep their values and stay unflagged, all errors stay as they are,
and so do all edges. -/
theorem unmoved_of_quiet {g : Graph} (hg : g.Reachable)
    (htimeless : ∀ n ∈ g.nodes, n.type ≠ .time)
    (hidle : ∀ n ∈ g.nodes, n.behavior.idle = true)
    (hcompiles : ∀ n ∈ g.nodes, n.behavior.OfList Generator.Compiles) (first : Frame)
    (hclean : ∀ n ∈ (first.apply g).nodes, n.ports.Clean)
    (hkept : ∀ e ∈ g.edges.edges, e ∈ (first.apply g).edges.edges) (frames : List Frame) :
    ((first.apply g).runFrames frames).ids = (first.apply g).ids ∧
      (∀ x n, (first.apply g).node? x = some n →
        ∃ m, ((first.apply g).runFrames frames).node? x = some m ∧
          m.ports.outputs = n.ports.outputs ∧ m.behavior.error? = n.behavior.error?) ∧
      ∀ e, e ∈ ((first.apply g).runFrames frames).edges.edges ↔
        e ∈ (first.apply g).edges.edges := by
  obtain ⟨poll, f, hframe⟩ := first.apply_eq
  have hk : (g.withClock f).evaluate poll = first.apply g := (hframe g).symm
  have hsteady : g.Steady := by
    intro x n hn
    have hmem : n ∈ g.nodes := mem_of_nodeIn? hn
    exact ⟨htimeless n hmem, hidle n hmem, hcompiles n hmem⟩
  have hquiet : Quiet g (first.apply g) :=
    ⟨fun x n hn => hclean n (mem_of_nodeIn? hn), hkept⟩
  have hids := ids_runFrames frames (first.apply g)
  have hrest := hquiet.unmoved_runFrames hg.wired hsteady hk frames
  have hwired := (hg.frame first).wired
  refine ⟨hids, fun x n hn => ?_, hrest.edges hids hwired (hwired.runFrames frames).1⟩
  obtain ⟨m, hm, hnm⟩ := hrest x n hn
  exact ⟨m, hm, hnm.outputs, hnm.error⟩

end Graph

end Patchbay

/-! ## With the standard engine -/

namespace Patchbay.Graph

/-- A list whose size a constant gives, shown by a display, two frames later. -/
def restingList : Graph :=
  sizedList.run [.create .display, .connect ⟨2⟩ 0 ⟨5⟩ 0, .step Poll.none 0, .step Poll.none 0]

/-- The list and the display are at rest after the next frame, so they have their outputs two frames
later. -/
theorem unmoved_of_quiet_restingList :
    restingList.Reachable ∧
      ∃ n m : Node, ((Frame.step Poll.none 1).apply restingList).node? ⟨5⟩ = some n ∧
        n.ports.outputs.map (·.cell.dirty) = [false] ∧
        (((Frame.step Poll.none 1).apply restingList).runFrames
          [.tick Poll.none 5, .step Poll.none 2]).node? ⟨5⟩ = some m ∧
        m.ports.outputs = n.ports.outputs := by
  have hreachable : restingList.Reachable := Reachable.run ⟨_, _, rfl⟩ _
  have hcompiles : ∀ n ∈ restingList.nodes, n.behavior.OfList Generator.Compiles := by
    rintro n (_ | ⟨_, _ | ⟨_, _ | ⟨_, ⟨⟩⟩⟩⟩)
    · trivial
    · exact ⟨_, rfl⟩
    · trivial
  have hrest := unmoved_of_quiet hreachable (by decide +kernel) (by decide +kernel) hcompiles
    (.step Poll.none 1) (by unfold Directory.Clean; decide +kernel) (by decide +kernel)
    [.tick Poll.none 5, .step Poll.none 2]
  obtain ⟨m, hm, hout, -⟩ := hrest.2.1 ⟨5⟩ _ rfl
  exact ⟨hreachable, _, m, rfl, rfl, hm, hout⟩

end Patchbay.Graph
