import Patchbay.Formula.Basic
import Patchbay.Proofs.RoundTrip
import Patchbay.Proofs.Usage
/-!
A scene that ends early is refused.

The bytes of a scene have no check sum, but every part of them announces how
much follows: the counts have fixed widths, there is a byte for the type of
each node, and each block stands behind its length.  `BlockReader.Needs`
follows a reader along bytes of which only a front part may be there: when
the reader succeeds, all that was written for it was there, and it has used
exactly that.  What is inside of a block does not matter, so nothing is
asked of the nodes.
-/

namespace Patchbay

open Bytes

namespace BlockReader

variable {α β : Type}

/-! ## Readers that need bytes -/

/-- In front of the first so many of the given bytes and of any that follow them, the reader fails
or has all of the given ones, and moves behind them; what it reads satisfies `Q`. -/
def Needs (r : BlockReader α) (bytes : List UInt8) (Q : α → Prop) : Prop :=
  ∀ (b b' : Buffer) (rest : List UInt8) (a : α), b.unread <+: bytes ++ rest → r b = .ok a b' →
    Q a ∧ b.unread = bytes ++ b'.unread

theorem Needs.bind {r : BlockReader α} {f : α → BlockReader β} {x y : List UInt8} {Q : α → Prop}
    {R : β → Prop} (hr : Needs r x Q) (hf : ∀ a, Q a → Needs (f a) y R) :
    Needs (r >>= f) (x ++ y) R := by
  intro b b' rest c hb h
  simp only [Bind.bind, EStateM.bind] at h
  cases hread : r b with
  | error e b₁ =>
      rw [hread] at h
      exact nomatch h
  | ok a b₁ =>
      rw [hread] at h
      rw [List.append_assoc] at hb
      obtain ⟨hQ, hx⟩ := hr b b₁ (y ++ rest) a hb hread
      rw [hx, List.prefix_append_right_inj] at hb
      obtain ⟨hR, hy⟩ := hf a hQ b₁ b' rest c hb h
      exact ⟨hR, by rw [hx, hy, List.append_assoc]⟩

/-- What is done after the last read uses no bytes. -/
theorem Needs.last {r : BlockReader α} {f : α → BlockReader β} {x : List UInt8} {Q : α → Prop}
    {R : β → Prop} (hr : Needs r x Q) (hf : ∀ a, Q a → Needs (f a) [] R) :
    Needs (r >>= f) x R := by
  have hbind : Needs (r >>= f) (x ++ []) R := hr.bind hf
  rw [List.append_nil] at hbind
  exact hbind

/-- The reader never moves. -/
def Still (r : BlockReader α) : Prop := ∀ b a b', r b = .ok a b' → b' = b

theorem still_pure (a : α) : Still (pure a) := by
  intro b a' b' h
  cases h
  rfl

theorem still_throw (e : SceneError) : Still (throw e : BlockReader α) := by
  intro b a b' h
  exact nomatch h

theorem still_ofExcept (x : Except SceneError α) : Still (ofExcept x) := by
  intro b a b' h
  cases x with
  | ok a' =>
      cases h
      rfl
  | error e => exact nomatch h

theorem Still.bind {r : BlockReader α} {f : α → BlockReader β} (hr : Still r)
    (hf : ∀ a, Still (f a)) : Still (r >>= f) := by
  intro b c b' h
  simp only [Bind.bind, EStateM.bind] at h
  split at h
  · next a b₁ ha =>
      have hb₁ : b₁ = b := hr b a b₁ ha
      rw [hb₁] at h
      exact hf a b c b' h
  · exact nomatch h

/-- A reader that only refuses what was read. -/
theorem still_unless {p : Prop} [Decidable p] (e : SceneError) (a : α) :
    Still (if p then do throw e; return a else return a) := by
  split
  · exact (still_throw e).bind fun _ => still_pure a
  · exact still_pure a

theorem Still.needs {r : BlockReader α} {Q : α → Prop} (hr : Still r) (hQ : Yields r Q) :
    Needs r [] Q := by
  intro b b' rest a _ h
  rw [hr b a b' h]
  exact ⟨hQ b a b' h, rfl⟩

/-- A reader that gives a value back from its bytes, and never reads from fewer, needs them. -/
theorem Reads.needs {r : BlockReader α} {x : List UInt8} {a : α} (hr : Reads r x a)
    (hask : ∀ b c b', r b = .ok c b' → x.length ≤ b.unread.length) : Needs r x (· = a) := by
  intro b b' rest c hb h
  have hfront : x <+: b.unread :=
    List.prefix_of_prefix_length_le (List.prefix_append x rest) hb (hask b c b' h)
  obtain ⟨left, hleft⟩ := hfront
  obtain ⟨b₁, hb₁, hrest⟩ := hr b left hleft.symm
  rw [h] at hb₁
  cases hb₁
  exact ⟨rfl, by rw [hrest, hleft]⟩

/-- As many parts in a row as there are need the bytes of all of them. -/
theorem needs_many {r : BlockReader α} {xs : List β} {put : β → List UInt8} {Q : α → Prop}
    (h : ∀ x ∈ xs, Needs r (put x) Q) :
    Needs (many r xs.length) (xs.flatMap put) fun as => as.length = xs.length := by
  induction xs with
  | nil => exact (still_pure []).needs (yields_pure rfl)
  | cons x xs ih =>
      rw [List.flatMap_cons]
      refine (h x (by simp)).bind fun a _ => ?_
      refine (ih fun y hy => h y (by simp [hy])).last fun as has => ?_
      exact (still_pure _).needs (yields_pure (congrArg Nat.succ has))

end BlockReader

/-! ## The parts of a scene -/

namespace BlockReader

/-- What is read of bytes that are not fewer than those of any value needs as many. -/
theorem needs_lift {α : Type} {r : Buffer.Reader α} {D : α → Prop} {put : α → List UInt8}
    (hr : Buffer.Decodes r D put) {a : α} (ha : Reads (lift r) (put a) a)
    (hlength : ∀ c, D c → (put c).length = (put a).length) : Needs (lift r) (put a) (· = a) := by
  refine ha.needs fun b c b' h => ?_
  obtain ⟨x, hx, -, hc, rfl⟩ := uses_lift hr b c b' h
  rw [hx, List.length_append, hlength c hc]
  exact Nat.le_add_right _ _

theorem needs_field {α : Type} {w : Wire α} {width : Nat} (hw : w.Fixed width) (hall : w.Complete)
    (a : α) : Needs (field w) (w.put a) (· = a) :=
  needs_lift (Buffer.decodes_get hall) (reads_field (hw.exact a)) fun c _ =>
    (hw.length_put c).trans (hw.length_put a).symm

theorem needs_take (bytes : List UInt8) :
    Needs (lift (Buffer.take bytes.length)) bytes (· = bytes) :=
  needs_lift (Buffer.decodes_take bytes.length) (reads_take rfl) fun _ h => h

/-- A block needs its length and as many bytes as that says. -/
theorem needs_getBlock {bytes : List UInt8} (h : bytes.length < sizeLimit) :
    Needs (lift Buffer.getBlock) (Wire.block.put bytes) (· = bytes) := by
  have hcount : (UInt64.ofNat bytes.length).toNat = bytes.length := UInt64.toNat_ofNat_of_lt' h
  rw [Buffer.put_block h, lift_getBlock]
  refine (needs_field Wire.fixed_u64 Wire.complete_u64 _).bind fun count hn => ?_
  rw [hn, hcount]
  exact needs_take bytes

end BlockReader

variable [Formula.Engine]

namespace Graph

open BlockReader

omit [Formula.Engine] in
/-- The counts need all of their bytes. -/
theorem needs_readCounts {count : Nat} (hcount : count < sizeLimit) (nextId : UInt32) :
    Needs readCounts (Wire.u64.put (UInt64.ofNat count) ++ Wire.u32.put nextId)
      fun counts => counts.1 = count := by
  have hnat : (UInt64.ofNat count).toNat = count := UInt64.toNat_ofNat_of_lt' hcount
  unfold readCounts
  refine (needs_field Wire.fixed_u64 Wire.complete_u64 _).bind fun n hn => ?_
  refine (needs_field Wire.fixed_u32 Wire.complete_u32 _).last fun next _ => ?_
  have hremaining : Still fun b => .ok b.remaining b := by
    intro b a b' h
    cases h
    rfl
  rw [hn]
  refine (hremaining.bind fun _ => still_unless _ _).needs (yields_after fun remaining => ?_)
  split
  · exact yields_after fun _ => yields_pure hnat
  · exact yields_pure hnat

omit [Formula.Engine] in
theorem needs_readType (t : NodeType) : Needs readType [t.tag] fun _ => True := by
  rw [← u8_put]
  refine (needs_field Wire.fixed_u8 Wire.complete_u8 t.tag).last fun tag _ => ?_
  exact (still_ofExcept _).needs (yields_true _)

section Reading
variable {g : Graph}

/-- A node needs its block, whatever type it is read as. -/
theorem needs_readNode {n : Node} (h : (g.blockOf n).length < sizeLimit) (t : NodeType)
    (done : Loaded) :
    Needs (readNode t done) (Wire.block.put (g.blockOf n)) fun _ => True := by
  unfold readNode
  refine (needs_getBlock h).last fun bytes _ => Still.needs ?_ (yields_true _)
  exact (still_ofExcept _).bind fun (m, edges) => still_unless _ _

/-- The nodes of a scene need all of its blocks. -/
theorem needs_readNodes {nodes : List Node}
    (h : ∀ n ∈ nodes, (g.blockOf n).length < sizeLimit) {types : List NodeType}
    (hlength : types.length = nodes.length) (done : Loaded) :
    Needs (readNodes done types) (nodes.flatMap fun n => Wire.block.put (g.blockOf n))
      fun _ => True := by
  induction nodes generalizing types done with
  | nil =>
      cases types with
      | nil => exact (still_pure done).needs (yields_true _)
      | cons t types => exact nomatch hlength
  | cons n nodes ih =>
      cases types with
      | nil => exact nomatch hlength
      | cons t types =>
          refine (needs_readNode (h n (by simp)) t done).bind fun s _ => ?_
          exact ih (fun m hm => h m (by simp [hm])) (Nat.succ.inj hlength) s

/-- A saved scene is not read from fewer bytes than it has. -/
theorem needs_readScene (hsize : g.save.length < sizeLimit) (c : Context) :
    Needs (readScene c) g.save fun _ => True := by
  have hblock : ∀ n ∈ g.nodes, (g.blockOf n).length < sizeLimit := fun n hn =>
    length_block_of_save hsize hn
  have htypes : Needs (many readType g.nodes.length) (g.nodes.map (·.type.tag))
      fun types => types.length = g.nodes.length := by
    rw [List.map_eq_flatMap]
    exact needs_many fun n _ => needs_readType n.type
  rw [save_eq, ← List.append_assoc]
  unfold readScene
  refine (needs_readCounts (length_nodes_of_save hsize) g.context.nextId).bind fun counts hcount => ?_
  obtain ⟨count, nextId⟩ := counts
  dsimp only at hcount ⊢
  subst hcount
  refine htypes.bind fun types htypes => ?_
  refine (needs_readNodes hblock htypes ⟨[], [], c⟩).last fun s _ => ?_
  exact (still_pure _).needs (yields_true _)

end Reading

/-- Whatever graph a scene was saved from, any part of it that lacks bytes at the end is refused,
and the graph that it is loaded into is left empty.  The scene has to have a length that eight
bytes can tell, as all bytes in a memory have. -/
theorem load_truncated {g : Graph} (hsize : g.save.length < sizeLimit) (k : Graph) {n : Nat}
    (hn : n < g.save.length) : ∃ e, k.load (g.save.take n) = (.error e, k.clear) := by
  cases hread : readScene k.clear.context (Buffer.ofBytes (g.save.take n)) with
  | error e b => exact ⟨e, load_of_error hread⟩
  | ok s b =>
      have hfront : (Buffer.ofBytes (g.save.take n)).unread <+: g.save ++ [] := by
        rw [List.append_nil, Buffer.unread_ofBytes]
        exact List.take_prefix n g.save
      obtain ⟨-, hall⟩ := needs_readScene hsize k.clear.context _ _ [] s hfront hread
      have hlength := congrArg List.length hall
      rw [Buffer.unread_ofBytes, List.length_take, List.length_append] at hlength
      omega

end Graph

end Patchbay

/-! ## With the standard engine -/

namespace Patchbay.Graph

open Bytes

/-- The scene of the camera without its last three bytes. -/
theorem load_truncated_of_waitingCamera :
    waitingCamera.save.length < sizeLimit ∧
      waitingCamera.save.length - 3 < waitingCamera.save.length ∧
      ∃ e, (empty "copy").load (waitingCamera.save.take (waitingCamera.save.length - 3)) =
        (.error e, (empty "copy").clear) := by
  have hsize := storable_waitingCamera.size
  have hn : waitingCamera.save.length - 3 < waitingCamera.save.length := by decide +kernel
  exact ⟨hsize, hn, load_truncated hsize (empty "copy") hn⟩

end Patchbay.Graph
