import Patchbay.Graph.Scene
import Patchbay.Proofs.Wires
import Patchbay.Proofs.Turns
/-!
What can come out of a scene, whatever its bytes are.

Bytes that are accepted may hold any names, classes and values, but not any
node: reading starts from a new node of the type, keeps its outputs, refuses
a blank name and attaches nothing.  `BlockReader.Yields` and `Filler.Leads`
are the rules by which this is followed through the readers: partial
correctness, of the value that is read and of the node that is filled.
-/

namespace Patchbay

open Bytes

/-! ## Readers of values -/

namespace BlockReader

variable {α β : Type}

/-- Whatever is read satisfies `Q`. -/
def Yields (r : BlockReader α) (Q : α → Prop) : Prop := ∀ b a b', r b = .ok a b' → Q a

theorem yields_pure {Q : α → Prop} {a : α} (h : Q a) : Yields (pure a) Q := by
  intro b a' b' hr
  cases hr
  exact h

theorem Yields.bind {r : BlockReader α} {f : α → BlockReader β} {Q : α → Prop} {R : β → Prop}
    (hr : Yields r Q) (hf : ∀ a, Q a → Yields (f a) R) : Yields (r >>= f) R := by
  intro b c b' h
  simp only [Bind.bind, EStateM.bind] at h
  split at h
  · next a b₁ ha => exact hf a (hr b a b₁ ha) b₁ c b' h
  · exact absurd h (by simp)

theorem yields_true (r : BlockReader α) : Yields r fun _ => True := by
  intro _ _ _ _
  trivial

/-- What a reader does after any other one. -/
theorem yields_after {r : BlockReader α} {f : α → BlockReader β} {R : β → Prop}
    (hf : ∀ a, Yields (f a) R) : Yields (r >>= f) R :=
  (yields_true r).bind fun a _ => hf a

theorem Yields.map {r : BlockReader α} {f : α → β} {Q : α → Prop} {R : β → Prop}
    (hr : Yields r Q) (hf : ∀ a, Q a → R (f a)) : Yields (f <$> r) R := by
  intro b c b' h
  simp only [Functor.map, EStateM.map] at h
  split at h
  · next a b₁ ha =>
      cases h
      exact hf a (hr b a _ ha)
  · exact absurd h (by simp)

theorem yields_map {r : BlockReader α} {f : α → β} {Q : β → Prop} (h : ∀ a, Q (f a)) :
    Yields (f <$> r) Q :=
  (yields_true r).map fun a _ => h a

theorem yields_ofExcept {x : Except SceneError α} {Q : α → Prop} (h : ∀ a, x = .ok a → Q a) :
    Yields (ofExcept x) Q := by
  intro b a b' hr
  cases x with
  | ok a' =>
      cases hr
      exact h _ rfl
  | error e => exact absurd hr (by simp [ofExcept])

theorem yields_many (r : BlockReader α) (count : Nat) :
    Yields (many r count) fun as => as.length = count := by
  induction count with
  | zero => exact yields_pure rfl
  | succ count ih =>
      refine yields_after fun a => ?_
      refine ih.bind fun as has => ?_
      exact yields_pure (congrArg Nat.succ has)

end BlockReader

/-! ## Sound nodes -/

variable [Formula.Engine]

/-- What every node of a graph satisfies: the outputs of its type under their names, a name that
is not blank, and no more inputs than four bytes can count.  Only a list may have more, one for
each variable that its user names. -/
structure Node.Sound (n : Node) : Prop where
  outputs : n.ports.outputNames = n.type.outputNames
  named : Text.isBlankText n.name = false
  countable : n.type ≠ .list → n.ports.inputs.length < limit 4

/-- A sound node of a type with nothing attached. -/
structure Node.Fresh (t : NodeType) (n : Node) : Prop where
  type : n.type = t
  sound : n.Sound
  loose : n.ports.Loose

theorem Node.renamed_eq (n : Node) (text : String) :
    n.renamed text = if Text.isBlankText text then n else { n with name := text } := by
  unfold Node.renamed Node.rename?
  by_cases h : Text.isBlankText text = true
  · rw [if_pos h, if_pos h, Option.getD_none]
  · rw [if_neg h, if_neg h, Option.getD_some]

/-- The fields of a type make a behavior of that type. -/
theorem Behavior.yields_get (t : NodeType) : (Behavior.get t).Yields fun b => b.type = t := by
  cases t <;>
    first
    | exact BlockReader.yields_map fun _ => rfl
    | exact BlockReader.yields_pure rfl

/-! ## Readers of nodes -/

namespace Block.Filler

variable {α β : Type} {P Q R : Node → Prop}

/-- A node that satisfies `P` is filled to one that satisfies `R`. -/
def Leads (P R : Node → Prop) (f : Filler α) : Prop :=
  ∀ b n a b' n', P n → f (b, n) = .ok a (b', n') → R n'

/-- A node that satisfies `P` is filled to one that does. -/
abbrev Keeps (P : Node → Prop) (f : Filler α) : Prop := Leads P P f

theorem leads_true (f : Filler α) : Leads P (fun _ => True) f := by
  intro _ _ _ _ _ _ _
  trivial

theorem keeps_pure (a : α) : Keeps P (pure a : Filler α) := by
  intro b n a' b' n' hn hr
  cases hr
  exact hn

theorem leads_change {f : Node → Node} (h : ∀ n, P n → R (f n)) : Leads P R (change f) := by
  intro b n a b' n' hn hr
  cases hr
  exact h n hn

theorem keeps_change {f : Node → Node} (h : ∀ n, P n → P (f n)) : Keeps P (change f) := leads_change h

theorem Leads.bind {f : Filler α} {g : α → Filler β} (hf : Leads P Q f)
    (hg : ∀ a, Leads Q R (g a)) : Leads P R (f >>= g) := by
  intro b n c b' n' hn h
  simp only [Bind.bind, EStateM.bind] at h
  split at h
  · next a s ha => exact hg a s.1 s.2 c b' n' (hf b n a s.1 s.2 hn ha) h
  · exact absurd h (by simp)

/-- After a part of the block has been read, what is known of the part can be used. -/
theorem leads_read {r : BlockReader α} {S : α → Prop} {g : α → Filler β} (hr : r.Yields S)
    (hg : ∀ a, S a → Leads P R (g a)) : Leads P R (read r >>= g) := by
  intro b n c b' n' hn h
  simp only [Bind.bind, EStateM.bind, read] at h
  cases hread : r b with
  | ok a b₁ =>
      rw [hread] at h
      exact hg a (hr b a b₁ hread) b₁ n c b' n' hn h
  | error e b₁ =>
      rw [hread] at h
      exact nomatch h

theorem leads_part {r : BlockReader α} {g : α → Filler β} (hg : ∀ a, Leads P R (g a)) :
    Leads P R (read r >>= g) :=
  leads_read (BlockReader.yields_true r) fun a _ => hg a

/-- The node that is being filled satisfies the condition when it is looked at. -/
theorem leads_node {g : Node → Filler β} (hg : ∀ m, P m → Leads P R (g m)) :
    Leads P R (node >>= g) := by
  intro b n c b' n' hn h
  exact hg n hn b n c b' n' hn h

end Block.Filler

namespace Block

open Filler

variable {t : NodeType}

theorem fresh_renamed {n : Node} (h : n.Fresh t) (name : String) : (n.renamed name).Fresh t := by
  rw [Node.renamed_eq]
  by_cases hb : Text.isBlankText name = true
  · rw [if_pos hb]
    exact h
  · rw [if_neg hb]
    exact ⟨h.type, ⟨h.sound.outputs, by simpa using hb, h.sound.countable⟩, h.loose⟩

theorem fresh_setInputs {n : Node} (h : n.Fresh t) {names : List String}
    (hnames : names.length < limit 4) :
    Node.Fresh t { n with ports := (n.ports.setInputs names).1 } := by
  have hcount : (n.ports.setInputs names).1.inputs.length = names.length := by
    rw [← Directory.length_inputNames, Directory.inputNames_setInputs]
  refine ⟨h.type, ⟨h.sound.outputs, h.sound.named, fun _ => hcount ▸ hnames⟩, fun i => ?_⟩
  rw [Option.eq_none_iff_forall_ne_some]
  intro a hs
  have hsource := h.loose i
  rw [(Directory.source?_setInputs.mp hs).1] at hsource
  exact absurd hsource (by simp)

theorem fresh_modifyCell {n : Node} (h : n.Fresh t) (i : Nat) (f : Cell → Cell) :
    Node.Fresh t { n with ports := n.ports.modifyCell i f } :=
  ⟨h.type, ⟨(Directory.outputNames_modifyCell n.ports i f).trans h.sound.outputs, h.sound.named,
    h.sound.countable⟩, h.loose⟩

omit [Formula.Engine] in
/-- The number of names that are read was written in four bytes. -/
theorem yields_readNames : readNames.Yields fun names => names.length < limit 4 := by
  unfold readNames
  refine BlockReader.yields_after fun count => ?_
  intro b names b' h
  rw [BlockReader.yields_many readName count.toNat b names b' h]
  exact count.toNat_lt

theorem keeps_readHead : Keeps (Node.Fresh t) readHead := by
  unfold readHead
  refine leads_part fun id => ?_
  refine (keeps_change fun n h => ?_).bind fun _ => ?_
  · exact ⟨h.type, ⟨h.sound.outputs, h.sound.named, h.sound.countable⟩, h.loose⟩
  refine leads_part fun name => ?_
  refine (keeps_change fun n h => fresh_renamed h name).bind fun _ => ?_
  refine leads_part fun priority => ?_
  refine (keeps_change fun n h => ?_).bind fun _ => ?_
  · exact ⟨h.type, ⟨h.sound.outputs, h.sound.named, h.sound.countable⟩, h.loose⟩
  refine leads_read yields_readNames fun names hnames => ?_
  refine (keeps_change fun n h => fresh_setInputs h hnames).bind fun _ => ?_
  refine leads_part fun input => ?_
  refine leads_part fun output => ?_
  exact keeps_change fun n h => ⟨h.type, ⟨h.sound.outputs, h.sound.named, h.sound.countable⟩, h.loose⟩

theorem keeps_readOutputs (index count : Nat) :
    Keeps (Node.Fresh t) (readOutputs index count) := by
  induction count generalizing index with
  | zero => exact keeps_pure ()
  | succ count ih =>
      unfold readOutputs
      refine leads_node fun m _ => ?_
      refine leads_part fun v => ?_
      exact (keeps_change fun n h => fresh_modifyCell h index _).bind fun _ => ih (index + 1)

theorem keeps_readGeometry : Keeps (Node.Fresh t) readGeometry := by
  unfold readGeometry
  refine leads_part fun position => ?_
  refine (keeps_change fun n h => ?_).bind fun _ => ?_
  · exact ⟨h.type, ⟨h.sound.outputs, h.sound.named, h.sound.countable⟩, h.loose⟩
  refine leads_part fun size => ?_
  exact keeps_change fun n h => ⟨h.type, ⟨h.sound.outputs, h.sound.named, h.sound.countable⟩, h.loose⟩

/-- Reading keeps the type of the node and its outputs, and attaches nothing. -/
theorem keeps_read : Keeps (Node.Fresh t) Block.read := by
  unfold Block.read
  refine keeps_readHead.bind fun _ => ?_
  refine leads_node fun _ _ => ?_
  refine leads_part fun edges => ?_
  refine leads_node fun _ _ => ?_
  refine (keeps_readOutputs 0 _).bind fun _ => ?_
  refine leads_node fun m hm => ?_
  refine leads_read (Behavior.yields_get m.type) fun behavior hb => ?_
  refine (keeps_change fun n h => ?_).bind fun _ => ?_
  · have ht : behavior.type = n.type := hb.trans (hm.type.trans h.type.symm)
    have hsound : Node.Sound { n with behavior } :=
      ⟨h.sound.outputs.trans (congrArg _ ht.symm), h.sound.named, fun hlist =>
        h.sound.countable fun htype => hlist (ht.trans htype)⟩
    exact ⟨ht.trans h.type, hsound, h.loose⟩
  exact keeps_readGeometry.bind fun _ => keeps_pure edges

/-- The fields of its type make the behavior of the node, whatever it was before. -/
theorem leads_behavior {Q : Behavior → Prop} (hget : ∀ t, (Behavior.get t).Yields Q) :
    Leads (fun _ => True) (fun n => Q n.behavior) Block.read := by
  unfold Block.read
  refine (leads_true readHead).bind fun _ => ?_
  refine leads_node fun _ _ => ?_
  refine leads_part fun edges => ?_
  refine leads_node fun _ _ => ?_
  refine (leads_true (readOutputs 0 _)).bind fun _ => ?_
  refine leads_node fun m _ => ?_
  refine leads_read (hget m.type) fun behavior hb => ?_
  have hset : Leads (fun _ => True) (fun n => Q n.behavior) (change fun n => { n with behavior }) :=
    leads_change fun _ _ => hb
  have hgeometry : Keeps (fun n => Q n.behavior) readGeometry := by
    unfold readGeometry
    refine leads_part fun position => ?_
    refine Leads.bind (keeps_change ?_) fun _ => leads_part fun size => keeps_change ?_
    · exact fun _ hn => hn
    · exact fun _ hn => hn
  exact hset.bind fun _ => hgeometry.bind fun _ => keeps_pure edges

end Block

/-! ## New nodes -/

omit [Formula.Engine] in
theorem isBlankText_append (s t : String) :
    Text.isBlankText (s ++ t) = (Text.isBlankText s && Text.isBlankText t) := by
  simp [Text.isBlankText]

namespace Node

theorem ports_create (t : NodeType) (c : Context) :
    (create t c).1.ports =
      (Behavior.initialPosts t).foldl Directory.post (Directory.new t.inputNames t.outputNames) :=
  rfl

theorem inputNames_create (t : NodeType) (c : Context) :
    (create t c).1.ports.inputNames = t.inputNames := by
  rw [ports_create, Directory.inputNames, Directory.inputs_posts]
  exact Directory.inputNames_new t.inputNames t.outputNames

/-- A default name begins with the name of the type. -/
theorem named_create (t : NodeType) (c : Context) :
    Text.isBlankText (create t c).1.name = false := by
  have hname : (create t c).1.name =
      t.displayName ++ " Node #" ++
        toString (Context.nameCount (c.allocate t.portCount).2.named t) := rfl
  rw [hname, isBlankText_append, isBlankText_append]
  have hword : Text.isBlankText " Node #" = false := by decide
  rw [hword, Bool.and_false, Bool.false_and]

/-- A node that is made of a type is fresh, whatever identity it gets. -/
theorem fresh_create (t : NodeType) (c : Context) (id : NodeId) :
    Node.Fresh t { (create t c).1 with id } where
  type := Behavior.type_initial t
  sound := by
    refine ⟨?_, named_create t c, fun _ => ?_⟩
    · show (create t c).1.ports.outputNames = ((create t c).1.type).outputNames
      rw [ports_create, Directory.outputNames_posts, Directory.outputNames_new]
      exact congrArg NodeType.outputNames (Behavior.type_initial t).symm
    · show (create t c).1.ports.inputs.length < limit 4
      rw [← Directory.length_inputNames, inputNames_create]
      cases t <;> decide
  loose := by
    intro i
    show (create t c).1.ports.source? i = none
    rw [ports_create, Directory.source?_congr (Directory.inputs_posts _ _)]
    exact Directory.loose_new t.inputNames t.outputNames i

end Node

/-! ## Scenes -/

namespace Graph

section Loads
variable {g : Graph} {bytes : List UInt8} {b : Buffer}

theorem load_of_ok {s : Loaded} (h : readScene g.clear.context (Buffer.ofBytes bytes) = .ok s b) :
    g.load bytes = (.ok (), g.clear.fill s) := by
  unfold load
  simp only [h]

theorem load_of_error {e : SceneError}
    (h : readScene g.clear.context (Buffer.ofBytes bytes) = .error e b) :
    g.load bytes = (.error e, g.clear) := by
  unfold load
  simp only [h]

end Loads

theorem of_nodeOfBlock {P R : Node → Prop} (hR : Block.Filler.Leads P R Block.read)
    {fresh n : Node} {bytes : List UInt8} {edges : List Edge} (hf : P fresh)
    (h : nodeOfBlock fresh bytes = .ok (n, edges)) : R n := by
  unfold nodeOfBlock at h
  split at h
  · exact absurd h (by simp)
  · next edges' b n' hread =>
      split at h
      · cases h
        exact hR _ _ _ _ _ hf hread
      · exact absurd h (by simp)

open BlockReader

section Nodes
variable {P : Node → Prop} (hP : ∀ t c bytes n edges,
  nodeOfBlock (Node.create t c).1 bytes = .ok (n, edges) → P n)
include hP

theorem yields_readNode (t : NodeType) {done : Loaded} (h : ∀ n ∈ done.nodes, P n) :
    (readNode t done).Yields fun s => ∀ n ∈ s.nodes, P n := by
  unfold readNode
  refine yields_after fun bytes => ?_
  refine (yields_ofExcept fun r hr => hP t done.context _ r.1 r.2 hr).bind fun r hr => ?_
  obtain ⟨n, edges⟩ := r
  have hdone : ∀ m ∈ n :: done.nodes, P m := List.forall_mem_cons.mpr ⟨hr, h⟩
  simp only
  split
  · exact yields_after fun _ => yields_pure hdone
  · exact yields_pure hdone

theorem yields_readNodes {done : Loaded} (h : ∀ n ∈ done.nodes, P n) (types : List NodeType) :
    (readNodes done types).Yields fun s => ∀ n ∈ s.nodes, P n := by
  induction types generalizing done with
  | nil => exact yields_pure h
  | cons t types ih => exact (yields_readNode hP t h).bind fun s hs => ih hs

/-- What holds of the nodes in all blocks holds of the nodes of a scene. -/
theorem forall_readScene (c : Context) : (readScene c).Yields fun s => ∀ n ∈ s.nodes, P n := by
  unfold readScene
  refine yields_after fun counts => ?_
  refine yields_after fun types => ?_
  refine (yields_readNodes hP (fun n hn => absurd hn (by simp)) types).bind fun s hs => ?_
  refine yields_pure fun n hn => ?_
  exact hs n (List.mem_reverse.mp hn)

end Nodes

/-- The nodes read so far are fresh. -/
def Loaded.Fresh (s : Loaded) : Prop := ∀ n ∈ s.nodes, ∃ t, n.Fresh t

/-- All nodes of a scene are fresh. -/
theorem yields_readScene (c : Context) : (readScene c).Yields Loaded.Fresh :=
  forall_readScene (fun t c _ _ _ h => ⟨t, of_nodeOfBlock Block.keeps_read
    (Node.fresh_create t c _) h⟩) c

/-- What holds of the behaviors that fields can make holds of those in a scene. -/
theorem behavior_of_readScene {Q : Behavior → Prop} (hget : ∀ t, (Behavior.get t).Yields Q)
    (c : Context) : (readScene c).Yields fun s => ∀ n ∈ s.nodes, Q n.behavior :=
  forall_readScene (fun _ _ _ _ _ h => of_nodeOfBlock (Block.leads_behavior hget) trivial h) c

end Graph

end Patchbay
