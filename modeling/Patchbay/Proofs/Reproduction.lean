import Patchbay.Formula.Basic
import Patchbay.Proofs.Usage
import Patchbay.Proofs.Scenes
/-!
A block that is read is written in the same bytes.

The node that a block is read into keeps nothing of its own but its type, the
names of its outputs, and its name where the block has a blank one.  So what
the reader has used up is the block of the node it leaves behind
(`Block.write_of_read`), whatever follows in the buffer.
-/

namespace Patchbay

open Bytes BlockReader Wire Value

namespace Block

/-! ## What a filler uses -/

namespace Filler

variable [Formula.Engine] {α β : Type}

/-- When the filler succeeds on the node, the bytes that it has used, what it has read and the filled
node satisfy `Q`. -/
def Uses (f : Filler α) (n : Node) (Q : List UInt8 → α → Node → Prop) : Prop :=
  ∀ b a b' n', f (b, n) = .ok a (b', n') →
    ∃ x, b.unread = x ++ b'.unread ∧ b'.bytes = b.bytes ∧ Q x a n'

theorem uses_pure {Q : List UInt8 → α → Node → Prop} {a : α} {n : Node} (h : Q [] a n) :
    Uses (pure a) n Q := by
  intro b a' b' n' hr
  cases hr
  exact ⟨[], rfl, rfl, h⟩

theorem uses_change {Q : List UInt8 → Unit → Node → Prop} {f : Node → Node} {n : Node}
    (h : Q [] () (f n)) : Uses (change f) n Q := by
  intro b a b' n' hr
  cases hr
  exact ⟨[], rfl, rfl, h⟩

theorem Uses.bind {f : Filler α} {g : α → Filler β} {Q : List UInt8 → α → Node → Prop}
    {R : List UInt8 → β → Node → Prop} {n : Node} (hf : Uses f n Q)
    (hg : ∀ x a m, Q x a m → Uses (g a) m fun y c n' => R (x ++ y) c n') : Uses (f >>= g) n R := by
  intro b c b' n' h
  simp only [Bind.bind, EStateM.bind] at h
  split at h
  · next a s ha =>
      obtain ⟨x, hx, hbytes, hQ⟩ := hf b a s.1 s.2 ha
      obtain ⟨y, hy, hbytes', hR⟩ := hg x a s.2 hQ s.1 c b' n' h
      exact ⟨x ++ y, by rw [hx, hy, List.append_assoc], hbytes'.trans hbytes, hR⟩
  · exact nomatch h

theorem uses_read {r : BlockReader α} {Q : List UInt8 → α → Prop} (hr : r.Uses Q) (n : Node) :
    Uses (read r) n fun x a n' => Q x a ∧ n' = n := by
  intro b a b' n' h
  unfold read at h
  cases hread : r b with
  | ok a' b₁ =>
      simp only [hread] at h
      cases h
      obtain ⟨x, hx, hbytes, hQ⟩ := hr b a b' hread
      exact ⟨x, hx, hbytes, hQ, rfl⟩
  | error e b₁ =>
      simp only [hread] at h
      exact nomatch h

/-- A part is read and something is done with it. -/
theorem uses_part {r : BlockReader α} {g : α → Filler β} {Q : List UInt8 → α → Prop}
    {R : List UInt8 → β → Node → Prop} {n : Node} (hr : r.Uses Q)
    (hg : ∀ x a, Q x a → Uses (g a) n fun y c n' => R (x ++ y) c n') : Uses (read r >>= g) n R := by
  refine (uses_read hr n).bind ?_
  rintro x a m ⟨hQ, rfl⟩
  exact hg x a hQ

theorem uses_changed {f : Node → Node} {g : Filler β} {R : List UInt8 → β → Node → Prop} {n : Node}
    (hg : Uses g (f n) R) : Uses (change f >>= fun _ => g) n R := by
  have hchange : Uses (change f) n fun x _ m => x = [] ∧ m = f n := uses_change ⟨rfl, rfl⟩
  refine hchange.bind ?_
  rintro x a m ⟨rfl, rfl⟩
  exact hg

theorem Uses.imp {f : Filler α} {n : Node} {Q R : List UInt8 → α → Node → Prop} (h : Uses f n Q)
    (hQR : ∀ x a n', Q x a n' → R x a n') : Uses f n R :=
  fun b a b' n' hf =>
    have ⟨x, hx, hbytes, hQ⟩ := h b a b' n' hf
    ⟨x, hx, hbytes, hQR x a n' hQ⟩

theorem uses_node {g : Node → Filler β} {R : List UInt8 → β → Node → Prop} {n : Node}
    (hg : Uses (g n) n R) : Uses (node >>= g) n R :=
  fun b c b' n' h => hg b c b' n' h

end Filler

open Filler

/-! ## Outputs with the values of others -/

/-- Outputs that take over the values of others take over the bytes. -/
theorem values_rewritten {ps os : List OutputPort} (h : ps.length = os.length) :
    (ps.zipWith rewritten os).map (·.cell.value) = os.map (·.cell.value) := by
  induction ps generalizing os with
  | nil =>
      rw [List.length_eq_zero_iff.mp h.symm]
      rfl
  | cons p ps ih =>
      cases os with
      | nil => exact nomatch h
      | cons o os =>
          rw [List.zipWith_cons_cons, List.map_cons, List.map_cons, ih (Nat.succ.inj h)]
          rfl

theorem bytes_of_values {ps os : List OutputPort}
    (h : ps.map (·.cell.value) = os.map (·.cell.value)) :
    ps.flatMap outputBytes = os.flatMap outputBytes := by
  have hbytes (qs : List OutputPort) : qs.flatMap outputBytes =
      (qs.map (·.cell.value)).flatMap fun v => outputBytes ⟨"", ⟨v, false⟩⟩ := by
    rw [List.flatMap_map]
    rfl
  rw [hbytes, hbytes, h]

/-! ## The parts of a block -/

theorem complete_nodeId : nodeIdWire.Complete := complete_u32.viaMap (fun _ => rfl) fun _ => rfl

theorem spends_readNames : readNames.Spends inputNamesBytes := by
  refine (spends_field complete_u32).bind fun count => ?_
  rintro b names b' h
  obtain ⟨x, hx, hbytes, hlength, rfl⟩ :=
    uses_many (spends_field canonical_text) count.toNat b names b' h
  refine ⟨_, hx, hbytes, ?_⟩
  show u32.put count ++ names.flatMap text.put = inputNamesBytes names
  rw [inputNamesBytes, hlength, UInt32.ofNat_toNat]

theorem spends_readEdge (producer : NodeId) : (readEdge producer).Spends edgeBytes := by
  refine (spends_field complete_u8).bind fun output => ?_
  refine (spends_field complete_u8).bind fun input => ?_
  refine (spends_field complete_nodeId).bind fun consumer => BlockReader.uses_pure ?_
  simp [edgeBytes]

theorem spends_readEdges (producer : NodeId) : (readEdges producer).Spends edgesBytes := by
  refine (spends_field complete_u64).bind fun count => ?_
  rintro b edges b' h
  obtain ⟨x, hx, hbytes, hlength, rfl⟩ := uses_many (spends_readEdge producer) count.toNat b edges b' h
  refine ⟨_, hx, hbytes, ?_⟩
  show u64.put count ++ edges.flatMap edgeBytes = edgesBytes edges
  rw [edgesBytes, hlength, UInt64.ofNat_toNat]

theorem kindOf_eq_ok {index : Nat} {id : NodeId} {isArray isList : Bool} {tag : UInt8} {k : Kind}
    (h : kindOf index id isArray isList tag = .ok k) :
    k.tag = tag ∧ k.isList = isList ∧ (k == .floatArray) = isArray := by
  unfold kindOf at h
  split at h
  · exact nomatch h
  · next k' hk =>
      split at h
      · next hflags =>
          cases h
          exact ⟨Kind.tag_of_ofTag? hk, hflags⟩
      · exact nomatch h

/-- A payload that is read fills its bytes, unless it is render parameters. -/
theorem payload_of_read {k : Kind} {payload : List UInt8} {v : Value}
    (h : (Value.ofBytes k payload).mapError SceneError.value = .ok v) (hv : v.kind ≠ .render) :
    v.kind = k ∧ v.toBytes = payload := by
  cases hread : Value.ofBytes k payload with
  | error e =>
      rw [hread] at h
      exact nomatch h
  | ok v' =>
      rw [hread] at h
      cases h
      by_cases hk : k = .render
      · rw [hk] at hread
        exact absurd (Value.ofBytes_render_eq_ok_iff.mp hread).1 hv
      · exact (Value.ofBytes_eq_ok_iff_of_ne hk).mp hread

/-- The bytes of an output tell its kind twice and its length once, and all three have to agree with
the payload. -/
theorem uses_readOutput (index : Nat) (id : NodeId) :
    (readOutput index id).Uses fun x v =>
      v.kind ≠ .render → ∀ o : OutputPort, o.cell.value = v → x = outputBytes o := by
  refine (spends_field complete_u64).bind fun size => ?_
  refine (spends_field complete_flag).bind fun isArray => ?_
  refine (spends_field complete_flag).bind fun isList => ?_
  refine (spends_field complete_u8).bind fun tag => ?_
  have hkind : (BlockReader.ofExcept (kindOf index id isArray isList tag)).Uses fun x k =>
      x = [] ∧ kindOf index id isArray isList tag = .ok k :=
    BlockReader.uses_ofExcept fun k hk => ⟨rfl, hk⟩
  refine hkind.bind ?_
  rintro x k ⟨rfl, hk⟩
  -- Tag and flags are those of one kind, so there is nothing to choose but the kind.
  obtain ⟨rfl, rfl, rfl⟩ := kindOf_eq_ok hk
  refine (uses_lift (Buffer.decodes_take size.toNat)).bind ?_
  rintro payload _ ⟨hlength, rfl⟩
  refine BlockReader.uses_ofExcept fun v hv hrender o ho => ?_
  obtain ⟨rfl, rfl⟩ := payload_of_read hv hrender
  subst ho
  have hsize : UInt64.ofNat o.cell.value.toBytes.length = size := by
    rw [hlength, UInt64.ofNat_toNat]
  simp only [outputBytes, hsize, Value.isArray, Cell.kind, List.append_assoc, List.append_nil,
    List.nil_append]

/-- The name that a block holds, behind the identity of the node. -/
def nameIn? (block : List UInt8) : Option String :=
  ((pair nodeIdWire text).get block).toOption.map (·.1.2)

theorem nameIn?_append (id : NodeId) {name : String}
    (hname : (Text.Utf8.encode name).length < sizeLimit) (rest : List UInt8) :
    nameIn? (nodeIdWire.put id ++ (text.put name ++ rest)) = some name := by
  have hget := (Wire.Canonical.pair complete_nodeId canonical_text).exact (id, name)
    ⟨trivial, hname⟩ rest
  rw [← List.append_assoc]
  show Option.map _ (Except.toOption _) = _
  rw [show (pair nodeIdWire text).get (nodeIdWire.put id ++ text.put name ++ rest) =
    .ok ((id, name), rest) from hget]
  rfl

variable [Formula.Engine]

/-- A name that is not blank is taken; a blank one is refused, and the node keeps its own. -/
theorem renamed_keeps (n : Node) (name : String) : ∃ kept, n.renamed name = { n with name := kept } ∧
    (Text.isBlankText name = false → kept = name) := by
  rw [Node.renamed_eq]
  by_cases hblank : Text.isBlankText name = true
  · rw [if_pos hblank]
    exact ⟨n.name, rfl, fun h => absurd (hblank.symm.trans h) (by decide)⟩
  · rw [if_neg hblank]
    exact ⟨name, rfl, fun _ => rfl⟩

/-- The head of a node is written in the bytes that it was read from, unless these have a blank
name. -/
theorem uses_readHead (m : Node) :
    readHead.Uses m fun x _ n => ∃ name, (∀ rest, nameIn? (x ++ rest) = some name) ∧
      (Text.isBlankText name = false → x = headBytes n) := by
  unfold readHead
  refine uses_part (spends_field complete_nodeId) ?_
  rintro _ id rfl
  refine uses_changed (uses_part (uses_field canonical_text) ?_)
  rintro _ name ⟨hname, rfl⟩
  obtain ⟨kept, hrenamed, hkept⟩ := renamed_keeps { m with id } name
  refine uses_changed ?_
  rw [hrenamed]
  refine uses_part (spends_choice Priority.tag_of_ofTag?) ?_
  rintro _ priority rfl
  refine uses_changed (uses_part spends_readNames ?_)
  rintro _ names rfl
  refine uses_changed (uses_part (spends_field complete_single) ?_)
  rintro _ input rfl
  refine uses_part (spends_field complete_single) ?_
  rintro _ output rfl
  refine uses_change ⟨name, fun rest => ?_, fun hblank => ?_⟩
  · simp only [List.append_assoc]
    exact nameIn?_append id hname _
  · have hnames := Directory.inputNames_setInputs m.ports names
    rw [hkept hblank]
    unfold Directory.inputNames at hnames
    simp only [headBytes, setPaddings, Directory.inputNames, hnames, List.append_assoc,
      List.append_nil]

/-- Reading outputs puts the values into the node one after the other. -/
theorem uses_readOutputs (index count : Nat) (m : Node) :
    (readOutputs index count).Uses m fun x _ n => ∃ os : List OutputPort, os.length = count ∧
      n = setOutputs index os m ∧ ((∀ o ∈ os, o.cell.kind ≠ .render) → x = os.flatMap outputBytes) := by
  induction count generalizing index m with
  | zero => exact Filler.uses_pure ⟨[], rfl, rfl, fun _ => rfl⟩
  | succ count ih =>
      unfold readOutputs
      refine uses_node (uses_part (uses_readOutput index m.id) ?_)
      intro x v hx
      refine uses_changed ?_
      refine (ih (index + 1) _).imp ?_
      rintro y _ n ⟨os, rfl, rfl, hy⟩
      refine ⟨⟨"", ⟨v, false⟩⟩ :: os, rfl, rfl, fun hkinds => ?_⟩
      rw [List.flatMap_cons, ← hx (hkinds _ List.mem_cons_self) _ rfl,
        hy fun o ho => hkinds o (List.mem_cons_of_mem _ ho)]

/-- The place on the screen. -/
theorem uses_readGeometry (m : Node) :
    readGeometry.Uses m fun x _ n => ∃ geometry, n = { m with geometry } ∧
      x = vec2Bytes geometry.position ++ vec2Bytes geometry.size := by
  unfold readGeometry
  refine uses_part (spends_field complete_vec2) ?_
  rintro _ position rfl
  refine uses_changed (uses_part (spends_field complete_vec2) ?_)
  rintro _ size rfl
  refine uses_change ⟨⟨position, size⟩, rfl, ?_⟩
  rw [List.append_nil]
  rfl

/-! ## The whole block -/

/-- What has been read of a block is written of the node and of the edges, if the block has a name
that is not blank and no render parameters. -/
theorem uses_read (m : Node) :
    Block.read.Uses m fun x edges n => ∃ name, (∀ rest, nameIn? (x ++ rest) = some name) ∧
      (Text.isBlankText name = false → (∀ o ∈ n.ports.outputs, o.cell.kind ≠ .render) →
        x = write n edges) := by
  unfold Block.read
  refine (uses_readHead m).bind ?_
  rintro x _ n₁ ⟨name, hname, hx⟩
  refine uses_node (uses_part (spends_readEdges n₁.id) ?_)
  rintro _ edges rfl
  refine uses_node ((uses_readOutputs 0 n₁.ports.outputs.length n₁).bind ?_)
  rintro y _ n₂ ⟨os, hlength, rfl, hy⟩
  refine uses_node (uses_part (Behavior.spends_get _) ?_)
  rintro _ behavior rfl
  refine uses_changed ((uses_readGeometry _).bind ?_)
  rintro z _ n ⟨geometry, rfl, rfl⟩
  refine Filler.uses_pure ⟨name, fun rest => ?_, fun hblank hkinds => ?_⟩
  · simp only [List.append_assoc]
    exact hname _
  · -- The outputs are those of `n₁` under their names, with the values that were read.
    have hstart : n₁.ports.outputs = [] ++ n₁.ports.outputs := rfl
    have hset := setOutputs_eq hstart hlength.symm
    have hvalues := values_rewritten hlength.symm
    simp only [List.nil_append, List.length_nil] at hset
    rw [hset] at hkinds ⊢
    have hread : ∀ o ∈ os, o.cell.kind ≠ .render := by
      intro o ho
      obtain ⟨p, hp, hpo⟩ := List.mem_map.mp (hvalues ▸ List.mem_map_of_mem ho)
      have hkind := hkinds p hp
      rwa [Cell.kind, hpo] at hkind
    rw [hx hblank, hy hread, ← bytes_of_values hvalues, write_eq, List.append_nil]
    rfl

/-- Decoding a block is exact, into a node of any type: what has been read is the block of the node
that is left and of the edges that were found.  The bytes must not hold a blank name, which is refused,
and no render parameters, which may have spare bytes behind them; of the latter the outputs tell, since
every one of them has been read. -/
theorem write_of_read {bytes : List UInt8} {m n : Node} {edges : List Edge} {b : Buffer}
    {name : String}
    (hread : Block.read (Buffer.ofBytes bytes, m) = .ok edges (b, n))
    (hname : nameIn? bytes = some name) (hnamed : Text.isBlankText name = false)
    (hkinds : ∀ o ∈ n.ports.outputs, o.cell.kind ≠ .render) :
    write n edges = bytes.take b.position := by
  obtain ⟨x, hx, hbytes, stored, hstored, hwritten⟩ := uses_read m _ _ _ _ hread
  have hall : bytes = x ++ b.unread := hx
  have hsame : stored = name := by
    rw [hall, hstored] at hname
    exact Option.some.inj hname
  have hrest : b.unread = bytes.drop b.position := congrArg (·.drop b.position) hbytes
  rw [← hwritten (hsame ▸ hnamed) hkinds]
  rw [hrest] at hall
  exact List.append_cancel_right (hall.symm.trans (List.take_append_drop b.position bytes).symm)

end Block

end Patchbay

/-! ## With the standard engine -/

namespace Patchbay.Block

open Bytes Filler

/-- The block of a new value node with an edge that starts at it, and one byte more. -/
theorem write_of_read_value :
    let m := (Node.create .value .new).1
    let edges : List Edge := [⟨⟨5⟩, m.id, 0, 0⟩]
    let bytes := write m edges ++ [7]
    ∃ b n, Block.read (Buffer.ofBytes bytes, m) = .ok edges (b, n) ∧
      nameIn? bytes = some "Value Node #0" ∧ Text.isBlankText "Value Node #0" = false ∧
      (∀ o ∈ n.ports.outputs, o.cell.kind ≠ .render) ∧ write n edges = bytes.take b.position := by
  intro m edges bytes
  have hname : nameIn? bytes = some "Value Node #0" := by decide +kernel
  have hnamed : Text.isBlankText "Value Node #0" = false := by decide +kernel
  have hkinds : ∀ o ∈ m.reloaded.ports.outputs, o.cell.kind ≠ .render := by decide +kernel
  have hfresh := Node.fresh_create .value .new m.id
  have hfills : Fills Block.read m (write m edges) edges m.reloaded :=
    fills_read_write hfresh.sound (by decide +kernel) (by decide +kernel) (by decide +kernel) rfl
      (Graph.inputs_create .value .new) hfresh.sound.outputs
  obtain ⟨b, hread, -⟩ := hfills (Buffer.ofBytes bytes) [7] rfl
  exact ⟨b, m.reloaded, hread, hname, hnamed, hkinds, write_of_read hread hname hnamed hkinds⟩

end Patchbay.Block
