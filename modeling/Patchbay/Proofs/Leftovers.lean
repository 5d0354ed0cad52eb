import Patchbay.Formula.Basic
import Patchbay.Proofs.RoundTrip
/-!
Bytes behind the end.

A block has to be used up by the node it is read into (`Graph.nodeOfBlock`),
so bytes that are added inside of a block are counted and refused.  Nothing
counts the bytes behind the last block.  Each part of a scene is read by what
it says of its own length (`BlockReader.Local`), so a scene that is accepted
stays so with any bytes behind it, and is loaded to the same graph.
-/

namespace Patchbay

open Bytes

namespace Bytes.Buffer

variable {b : Buffer} {x : List UInt8}

theorem remaining_putBytes (b : Buffer) (x : List UInt8) :
    (b.putBytes x).remaining = b.remaining + x.length := by
  rw [← length_unread, unread_putBytes, List.length_append, length_unread]

theorem putBytes_leaving (b : Buffer) (rest x : List UInt8) :
    (b.leaving rest.length).putBytes x = (b.putBytes x).leaving (rest ++ x).length := by
  have hposition : b.bytes.length - rest.length =
      (b.bytes ++ x).length - (rest ++ x).length := by
    rw [List.length_append, List.length_append, Nat.add_sub_add_right]
  simp only [leaving, putBytes, hposition]

end Bytes.Buffer

namespace BlockReader

variable {α β : Type}

/-! ## Readers that do not look ahead -/

/-- What the reader gives does not depend on what follows the bytes that it uses. -/
def Local (r : BlockReader α) : Prop :=
  ∀ b a b' x, r b = .ok a b' → r (b.putBytes x) = .ok a (b'.putBytes x)

theorem local_pure (a : α) : Local (pure a) := by
  intro b a' b' x h
  cases h
  rfl

theorem local_throw (e : SceneError) : Local (throw e : BlockReader α) := by
  intro b a b' x h
  exact nomatch h

theorem local_ofExcept (y : Except SceneError α) : Local (ofExcept y) := by
  cases y with
  | ok a => exact local_pure a
  | error e => exact local_throw e

theorem Local.bind {r : BlockReader α} {f : α → BlockReader β} (hr : Local r)
    (hf : ∀ a, Local (f a)) : Local (r >>= f) := by
  intro b c b' x h
  simp only [Bind.bind, EStateM.bind] at h ⊢
  cases hread : r b with
  | error e b₁ =>
      rw [hread] at h
      exact nomatch h
  | ok a b₁ =>
      rw [hread] at h
      rw [hr b a b₁ x hread]
      exact hf a b₁ c b' x h

theorem local_lift {r : Buffer.Reader α} {D : α → Prop} {put : α → List UInt8}
    (hr : Buffer.Decodes r D put) : Local (lift r) := by
  intro b a b' x h
  simp only [lift] at h ⊢
  cases hread : r b with
  | error e b₁ =>
      rw [hread] at h
      cases h
  | ok a' b₁ =>
      rw [hread] at h
      cases h
      obtain ⟨ha, rest, hb, rfl⟩ := (hr b a b').mp hread
      have hmore : r (b.putBytes x) = .ok a ((b.leaving rest.length).putBytes x) := by
        refine (hr _ _ _).mpr ⟨ha, rest ++ x, ?_, b.putBytes_leaving rest x⟩
        rw [Buffer.unread_putBytes, hb, List.append_assoc]
      rw [hmore]

theorem local_field {w : Wire α} {D : α → Prop} (hw : w.Canonical D) : Local (field w) :=
  local_lift (Buffer.decodes_get hw)

theorem local_many {r : BlockReader α} (hr : Local r) (n : Nat) : Local (many r n) := by
  induction n with
  | zero => exact local_pure []
  | succ n ih => exact hr.bind fun a => ih.bind fun as => local_pure (a :: as)

/-! ## Readers that fail -/

/-- In front of the given bytes the reader fails with the cause, whatever follows them. -/
def Fails (r : BlockReader α) (bytes : List UInt8) (e : SceneError) : Prop :=
  ∀ (b : Buffer) (rest : List UInt8), b.unread = bytes ++ rest → ∃ b', r b = .error e b'

theorem Fails.append {r : BlockReader α} {x : List UInt8} {e : SceneError} (h : Fails r x e)
    (y : List UInt8) : Fails r (x ++ y) e := by
  intro b rest hb
  rw [List.append_assoc] at hb
  exact h b (y ++ rest) hb

theorem Fails.bind {r : BlockReader α} {x : List UInt8} {e : SceneError} (h : Fails r x e)
    (f : α → BlockReader β) : Fails (r >>= f) x e := by
  intro b rest hb
  obtain ⟨b', hb'⟩ := h b rest hb
  exact ⟨b', by simp only [Bind.bind, EStateM.bind, hb']⟩

theorem Reads.fails {r : BlockReader α} {f : α → BlockReader β} {x y : List UInt8} {a : α}
    {e : SceneError} (hr : Reads r x a) (hf : Fails (f a) y e) : Fails (r >>= f) (x ++ y) e := by
  intro b rest hb
  rw [List.append_assoc] at hb
  obtain ⟨b₁, hb₁, hrest⟩ := hr b (y ++ rest) hb
  obtain ⟨b', hb'⟩ := hf b₁ rest hrest
  exact ⟨b', by simp only [Bind.bind, EStateM.bind, hb₁, hb']⟩

/-- The cause of the failure uses no bytes. -/
theorem Reads.failsLast {r : BlockReader α} {f : α → BlockReader β} {x : List UInt8} {a : α}
    {e : SceneError} (hr : Reads r x a) (hf : Fails (f a) [] e) : Fails (r >>= f) x e := by
  have hbind : Fails (r >>= f) (x ++ []) e := hr.fails hf
  rw [List.append_nil] at hbind
  exact hbind

theorem fails_ofExcept (e : SceneError) : Fails (ofExcept (.error e) : BlockReader α) [] e :=
  fun b _ _ => ⟨b, rfl⟩

end BlockReader

variable [Formula.Engine]

namespace Graph

open BlockReader

/-! ## Behind the last block -/

omit [Formula.Engine] in
/-- The counts ask for a number of bytes behind them, and more do no harm. -/
theorem local_readCounts : Local readCounts := by
  unfold readCounts
  refine (local_field Wire.complete_u64).bind fun count => ?_
  refine (local_field Wire.complete_u32).bind fun nextId => ?_
  intro b counts b' x h
  simp only [Bind.bind, EStateM.bind] at h ⊢
  split at h
  · exact nomatch h
  · next henough =>
      have hmore : ¬(b.putBytes x).remaining < count.toNat := by
        rw [b.remaining_putBytes]
        omega
      rw [if_neg hmore]
      exact local_pure _ _ _ _ _ h

theorem local_readNode (t : NodeType) (done : Loaded) : Local (readNode t done) := by
  unfold readNode
  refine (local_lift Buffer.decodes_getBlock).bind fun bytes => ?_
  refine (local_ofExcept _).bind fun (n, edges) => ?_
  dsimp only
  split
  · exact (local_throw _).bind fun _ => local_pure _
  · exact local_pure _

theorem local_readNodes (done : Loaded) (types : List NodeType) : Local (readNodes done types) := by
  induction types generalizing done with
  | nil => exact local_pure done
  | cons t types ih => exact (local_readNode t done).bind fun done => ih done

theorem local_readScene (c : Context) : Local (readScene c) := by
  have htype : Local readType := (local_field Wire.complete_u8).bind fun tag => local_ofExcept _
  unfold readScene
  refine local_readCounts.bind fun (count, nextId) => ?_
  refine (local_many htype count).bind fun types => ?_
  exact (local_readNodes _ types).bind fun loaded => local_pure _

/-- A scene that is accepted is loaded to the same graph with any bytes behind it. -/
theorem load_append {k : Graph} {bytes : List UInt8} (h : (k.load bytes).1 = .ok ())
    (x : List UInt8) : k.load (bytes ++ x) = k.load bytes := by
  cases hread : readScene k.clear.context (Buffer.ofBytes bytes) with
  | error e b =>
      rw [load_of_error hread] at h
      exact nomatch h
  | ok s b =>
      have hmore := local_readScene _ _ _ _ x hread
      rw [load_of_ok hread]
      exact load_of_ok hmore

/-! ## Behind the last field -/

/-- The scene of a graph with bytes added inside of the block of one node. -/
def saveWith (g : Graph) (id : NodeId) (x : List UInt8) : List UInt8 :=
  Wire.u64.put (UInt64.ofNat g.nodes.length) ++ (Wire.u32.put g.context.nextId ++
    (g.nodes.map (·.type.tag) ++
      g.nodes.flatMap fun n => Wire.block.put (g.blockOf n ++ if n.id = id then x else [])))

section Reading
variable {g : Graph} {n : Node} {x : List UInt8}

/-- What follows the fields of a node in its block is counted. -/
theorem nodeOfBlock_append (h : g.Storable) (hn : n ∈ g.nodes) (hsound : n.Sound) (hx : x ≠ [])
    (c : Context) :
    nodeOfBlock (Node.create n.type c).1 (g.blockOf n ++ x) =
      .error (.shape (.unreadBytes x.length n.id)) := by
  obtain ⟨b, hread, hrest⟩ :=
    fills_blockOf h hn hsound c (Buffer.ofBytes (g.blockOf n ++ x)) x (Buffer.unread_ofBytes _)
  have hremaining : b.remaining = x.length := by rw [← b.length_unread, hrest]
  have hexhausted : b.isExhausted = false := by
    rw [Buffer.isExhausted, hremaining]
    simpa using hx
  unfold nodeOfBlock
  rw [hread]
  simp only [hexhausted, hremaining, Bool.false_eq_true, if_false]
  rfl

theorem fails_readNode (h : g.Storable) (hn : n ∈ g.nodes) (hsound : n.Sound) (hx : x ≠ [])
    (hsize : (g.blockOf n ++ x).length < sizeLimit) (done : Loaded) :
    (readNode n.type done).Fails (Wire.block.put (g.blockOf n ++ x))
      (.shape (.unreadBytes x.length n.id)) := by
  unfold readNode
  refine (reads_getBlock hsize).failsLast ?_
  dsimp only
  rw [nodeOfBlock_append h hn hsound hx]
  exact (fails_ofExcept _).bind _

theorem readNodes_append (done : Loaded) (ts us : List NodeType) :
    readNodes done (ts ++ us) = readNodes done ts >>= fun s => readNodes s us := by
  induction ts generalizing done with
  | nil => rw [List.nil_append, readNodes, pure_bind]
  | cons t ts ih =>
      rw [List.cons_append, readNodes, readNodes, bind_assoc]
      exact bind_congr fun s => ih s

/-- The nodes in front of the one whose block has bytes left are read, and those behind it are not
looked at. -/
theorem fails_readNodes (h : g.Storable) (hnodup : g.ids.Nodup) (hsound : ∀ m ∈ g.nodes, m.Sound)
    (hn : n ∈ g.nodes) (hx : x ≠ []) (hsize : (g.blockOf n ++ x).length < sizeLimit) (c : Context) :
    (readNodes ⟨[], [], c⟩ (g.nodes.map Node.type)).Fails
      (g.nodes.flatMap fun m => Wire.block.put (g.blockOf m ++ if m.id = n.id then x else []))
      (.shape (.unreadBytes x.length n.id)) := by
  obtain ⟨before, after, hsplit⟩ := List.append_of_mem hn
  have hbefore : ∀ m ∈ before, m ∈ g.nodes := fun m hm => hsplit ▸ List.mem_append_left _ hm
  have hids : (before.map Node.id ++ n.id :: after.map Node.id).Nodup := by
    rw [ids, hsplit, List.map_append, List.map_cons] at hnodup
    exact hnodup
  have hfront : (before.flatMap fun m =>
      Wire.block.put (g.blockOf m ++ if m.id = n.id then x else [])) =
        before.flatMap fun m => Wire.block.put (g.blockOf m) := by
    refine congrArg List.flatten (List.map_congr_left fun m hm => ?_)
    have hother : m.id ≠ n.id := fun heq =>
      (List.nodup_append.mp hids).2.2 _ (List.mem_map_of_mem hm) _ (by simp) heq
    rw [if_neg hother, List.append_nil]
  have hstart : ((⟨[], [], c⟩ : Loaded).nodes.map Node.id ++ before.map Node.id).Nodup :=
    (List.nodup_append.mp hids).1
  have hread := reads_readNodes h hbefore (fun m hm => hsound m (hbefore m hm)) hstart
  rw [hsplit, List.map_append, List.map_cons, readNodes_append, List.flatMap_append,
    List.flatMap_cons, if_pos rfl, hfront]
  exact hread.fails (((fails_readNode h hn (hsound n hn) hx hsize _).bind _).append _)

theorem readScene_saveWith (h : g.Storable) (hnodup : g.ids.Nodup)
    (hsound : ∀ m ∈ g.nodes, m.Sound) (hn : n ∈ g.nodes) (hx : x ≠ [])
    (hsize : (g.saveWith n.id x).length < sizeLimit) (c : Context) :
    ∃ b, readScene c (Buffer.ofBytes (g.saveWith n.id x)) =
      .error (.shape (.unreadBytes x.length n.id)) b := by
  have hblock : (g.blockOf n ++ x).length < sizeLimit := by
    have hle := Wire.length_le_of_mem
      (fun m => Wire.block.put (g.blockOf m ++ if m.id = n.id then x else [])) hn
    simp only [saveWith, List.length_append, List.length_map] at hsize
    rw [if_pos rfl, Wire.length_put_block] at hle
    omega
  have hlength : g.nodes.length ≤ (g.nodes.map (·.type.tag) ++ g.nodes.flatMap fun m =>
      Wire.block.put (g.blockOf m ++ if m.id = n.id then x else [])).length := by
    rw [List.length_append, List.length_map]
    omega
  obtain ⟨b₁, hb₁, hrest₁⟩ := readCounts_of_length (length_nodes_of_save h.size) g.context.nextId
    hlength (Buffer.unread_ofBytes (g.saveWith n.id x))
  obtain ⟨b₂, hb₂, hrest₂⟩ := reads_types g b₁ _ hrest₁
  obtain ⟨b₃, hb₃⟩ := fails_readNodes h hnodup hsound hn hx hblock c b₂ [] (by
    rw [List.append_nil]
    exact hrest₂)
  refine ⟨b₃, ?_⟩
  unfold readScene
  simp only [Bind.bind, EStateM.bind, hb₁, hb₂, hb₃]

end Reading

/-- Bytes behind the last block of a scene are ignored, so with any bytes behind it the scene of a
graph is loaded as it is loaded without them.  Bytes behind the last field of a block are refused, and
the graph stays empty. -/
theorem load_leftovers {g : Graph} (h : g.Reachable) (hs : g.Storable) (k : Graph) :
    (∀ x, (k.load (g.save ++ x)).1 = .ok () ∧ k.load (g.save ++ x) = k.load g.save) ∧
      ∀ n ∈ g.nodes, ∀ x ≠ [], (g.saveWith n.id x).length < sizeLimit →
        k.load (g.saveWith n.id x) = (.error (.shape (.unreadBytes x.length n.id)), k.clear) := by
  constructor
  · intro x
    obtain ⟨g', hload, -⟩ := exists_load h hs k
    have hok : (k.load g.save).1 = .ok () := by rw [hload]
    rw [load_append hok]
    exact ⟨hok, rfl⟩
  · intro n hn x hx hsize
    obtain ⟨hw, hshape⟩ := standing_invariant.of_reachable h
    obtain ⟨b, hread⟩ :=
      readScene_saveWith hs hw.nodup hshape.sound hn hx hsize k.clear.context
    exact load_of_error hread

end Graph

end Patchbay

/-! ## With the standard engine -/

namespace Patchbay.Graph

open Bytes

theorem load_leftovers_of_waitingCamera :
    waitingCamera.Reachable ∧ waitingCamera.Storable ∧
      ((empty "copy").load (waitingCamera.save ++ [0])).1 = .ok () ∧
      ∀ n ∈ waitingCamera.nodes, (waitingCamera.saveWith n.id [0]).length < sizeLimit ∧
        (empty "copy").load (waitingCamera.saveWith n.id [0]) =
          (.error (.shape (.unreadBytes 1 n.id)), (empty "copy").clear) := by
  have hreachable : waitingCamera.Reachable := ⟨_, _, rfl⟩
  have hsize : ∀ n ∈ waitingCamera.nodes,
      (waitingCamera.saveWith n.id [0]).length < sizeLimit := by decide +kernel
  obtain ⟨hbehind, hinside⟩ := load_leftovers hreachable storable_waitingCamera (empty "copy")
  exact ⟨hreachable, storable_waitingCamera, (hbehind [0]).1, fun n hn =>
    ⟨hsize n hn, hinside n hn [0] (by decide) (hsize n hn)⟩⟩

/-- A value node, and nothing else. -/
def lone : Graph := run [.create .value] (empty "lone")

/-- One byte behind the scene of the value node, and the node is loaded. -/
theorem load_lone_with_spare_byte :
    lone.Reachable ∧ ((empty "copy").load (lone.save ++ [0])).1 = .ok () ∧
      ((empty "copy").load (lone.save ++ [0])).2.nodes.map Node.content =
        lone.nodes.map Node.content ∧
      lone.nodes ≠ [] := by
  have hreachable : lone.Reachable := ⟨_, _, rfl⟩
  have hstorable : lone.Storable := ⟨by decide +kernel, by decide +kernel⟩
  obtain ⟨g, hload, hcontent, -⟩ := exists_load hreachable hstorable (empty "copy")
  have hok : ((empty "copy").load lone.save).1 = .ok () := by rw [hload]
  rw [load_append hok, hload]
  exact ⟨hreachable, rfl, hcontent, by decide +kernel⟩

end Patchbay.Graph
