import Patchbay.Behavior.Basic
import Patchbay.Proofs.Buffers
import Patchbay.Proofs.Payloads
/-!
The fields of a node come back from its block.

`BlockReader.Reads` is the rule by which a reader is followed along the
bytes that were written: it gives the value and stands behind the bytes, so
the parts of a block follow one another.  What a behavior is after it has
been written and read, `Behavior.reloaded`, has lost its errors, marks and
caches and kept everything that a user has set, edits that wait included.
-/

namespace Patchbay

open Bytes

/-! ## Following a reader -/

namespace BlockReader

variable {α β : Type}

/-- In front of the given bytes the reader gives the value and moves behind them. -/
def Reads (r : BlockReader α) (bytes : List UInt8) (a : α) : Prop :=
  ∀ (b : Buffer) (rest : List UInt8), b.unread = bytes ++ rest →
    ∃ b', r b = .ok a b' ∧ b'.unread = rest

theorem reads_pure (a : α) : Reads (pure a) [] a := by
  intro b rest h
  exact ⟨b, rfl, h⟩

theorem Reads.bind {r : BlockReader α} {f : α → BlockReader β} {x y : List UInt8} {a : α} {c : β}
    (hr : Reads r x a) (hf : Reads (f a) y c) : Reads (r >>= f) (x ++ y) c := by
  intro b rest h
  rw [List.append_assoc] at h
  obtain ⟨b₁, hb₁, hrest₁⟩ := hr b (y ++ rest) h
  obtain ⟨b₂, hb₂, hrest₂⟩ := hf b₁ rest hrest₁
  refine ⟨b₂, ?_, hrest₂⟩
  simp only [Bind.bind, EStateM.bind, hb₁]
  exact hb₂

/-- What is done after the last read uses no bytes. -/
theorem Reads.last {r : BlockReader α} {f : α → BlockReader β} {x : List UInt8} {a : α} {c : β}
    (hr : Reads r x a) (hf : Reads (f a) [] c) : Reads (r >>= f) x c := by
  have hbind : Reads (r >>= f) (x ++ []) c := hr.bind hf
  rw [List.append_nil] at hbind
  exact hbind

theorem Reads.map {r : BlockReader α} {x : List UInt8} {a : α} (h : Reads r x a) (f : α → β) :
    Reads (f <$> r) x (f a) := by
  intro b rest hb
  obtain ⟨b', hb', hrest⟩ := h b rest hb
  refine ⟨b', ?_, hrest⟩
  simp only [Functor.map, EStateM.map, hb']

theorem reads_field {w : Wire α} {a : α} (h : w.Exact a) : Reads (field w) (w.put a) a := by
  intro b rest hb
  have hget := Buffer.get_of_exact h hb
  refine ⟨b.leaving rest.length, ?_, Buffer.unread_leaving hb⟩
  simp only [field, lift, hget]

theorem reads_ofExcept {x : Except SceneError α} {a : α} (h : x = .ok a) :
    Reads (ofExcept x) [] a := by
  intro b rest hb
  subst h
  exact ⟨b, rfl, hb⟩

/-- Bytes taken as they are. -/
theorem reads_take {bytes : List UInt8} {n : Nat} (h : bytes.length = n) :
    Reads (lift (Buffer.take n)) bytes bytes := by
  intro b rest hb
  have htake := Buffer.take_of_length h hb
  refine ⟨b.leaving rest.length, ?_, Buffer.unread_leaving hb⟩
  simp only [lift, htake]

/-- A block is its length and then as many bytes. -/
theorem lift_getBlock :
    lift Buffer.getBlock = (field Wire.u64 >>= fun n => lift (Buffer.take n.toNat)) := by
  funext b
  simp only [lift, field, Buffer.getBlock, Bind.bind, EStateM.bind]
  cases Buffer.get Wire.u64 b with
  | ok n b₁ => rfl
  | error e b₁ => rfl

/-- Bytes behind their number. -/
theorem reads_getBlock {bytes : List UInt8} (h : bytes.length < sizeLimit) :
    Reads (lift Buffer.getBlock) (Wire.block.put bytes) bytes := by
  intro b rest hb
  have hblock := Buffer.getBlock_of_length h hb
  refine ⟨b.leaving rest.length, ?_, Buffer.unread_leaving hb⟩
  simp only [lift, hblock]

theorem reads_choice {what : String} {ofTag? : UInt8 → Option α} {tag : α → UInt8}
    (h : ∀ a, ofTag? (tag a) = some a) (a : α) :
    Reads (choice what ofTag?) (Wire.u8.put (tag a)) a := by
  have hnamed : named what ofTag? (tag a) = .ok a := by
    unfold named
    rw [h a]
  exact (reads_field (Wire.fixed_u8.exact (tag a))).last (reads_ofExcept hnamed)

theorem reads_optionalChoice {what : String} {ofTag? : UInt8 → Option α} {tag : α → UInt8}
    (h : ∀ a, ofTag? (tag a) = some a) (a : Option α) :
    Reads (optionalChoice what ofTag?) ((Wire.optional Wire.u8).put (a.map tag)) a := by
  have hfield := reads_field (Wire.fixed_u8.optional (a.map tag))
  cases a with
  | none => exact hfield.last (reads_pure none)
  | some a =>
      have hnamed : named what ofTag? (tag a) = .ok a := by
        unfold named
        rw [h a]
      exact hfield.last ((reads_ofExcept hnamed).last (reads_pure (some a)))

theorem reads_many {r : BlockReader α} {put : α → List UInt8} {as : List α}
    (h : ∀ a ∈ as, Reads r (put a) a) : Reads (many r as.length) (as.flatMap put) as := by
  induction as with
  | nil => exact reads_pure []
  | cons a as ih =>
      rw [List.length_cons, List.flatMap_cons]
      exact (h a (by simp)).bind ((ih fun x hx => h x (by simp [hx])).last (reads_pure (a :: as)))

end BlockReader

/-! ## The fields of each type -/

open BlockReader Wire

theorem Constant.reads_get (s : Constant) : get.Reads s.put s := by
  unfold get put
  exact (reads_choice Scalar.ofTag?_tag s.scalar).bind
    ((reads_field (fixed_u32.optional s.pending)).last (reads_pure s))

theorem Quadruple.reads_get (s : Quadruple) : get.Reads s.put s := by
  unfold get put
  exact (reads_field (Value.fixed_vec4.optional s.pending)).last (reads_pure s)

theorem Tint.reads_get (s : Tint) : get.Reads s.put s := by
  unfold get put
  exact (reads_field (Value.fixed_vec4.optional s.pending)).last (reads_pure s)

theorem Offset.reads_get (s : Offset) : get.Reads s.put s := by
  unfold get put
  exact (reads_field (Value.fixed_vec3.exact s.delta)).bind
    ((reads_field (Value.fixed_vec3.optional s.pending)).last (reads_pure s))

theorem Camera.reads_get (s : Camera) : get.Reads s.put s := by
  unfold get put
  rw [List.append_assoc, List.append_assoc]
  refine (reads_choice CameraMode.ofTag?_tag s.mode).bind ?_
  refine (reads_optionalChoice CameraMode.ofTag?_tag s.pendingMode).bind ?_
  refine (reads_field (Value.fixed_vec3.exact s.position)).bind ?_
  exact (reads_field (Value.fixed_vec3.exact s.forward)).last (reads_pure s)

theorem Collector.reads_get (s : Collector) : get.Reads s.put s := by
  unfold get put
  rw [List.append_assoc]
  refine (reads_field (fixed_single.exact s.fogMin)).bind ?_
  refine (reads_field (fixed_single.exact s.fogMax)).bind ?_
  exact (reads_field (Value.fixed_vec3.exact s.fogColor)).last (reads_pure s)

/-- A sum forgets its error. -/
def Arithmetic.reloaded (s : Arithmetic) : Arithmetic := { initial with operation := s.operation }

theorem Arithmetic.reads_get (s : Arithmetic) : get.Reads s.put s.reloaded := by
  unfold get put
  exact (reads_choice Operation.ofTag?_tag s.operation).last (reads_pure s.reloaded)

/-- A selector forgets its error. -/
def Selector.reloaded (s : Selector) : Selector := { initial with index := s.index }

theorem Selector.reads_get (s : Selector) : get.Reads s.put s.reloaded := by
  unfold get put
  exact (reads_field (fixed_i32.exact s.index)).last (reads_pure s.reloaded)

/-- The file that is shown waits to be loaded. -/
def MeshSource.reloaded (s : MeshSource) : MeshSource :=
  { initial with pendingPath := some s.currentPath }

theorem MeshSource.reads_get {s : MeshSource} (h : s.put.length < sizeLimit) :
    get.Reads s.put s.reloaded := by
  unfold get
  exact (reads_field (faithful_text s.currentPath h)).last (reads_pure s.reloaded)

/-- A path forgets its direction and its spline. -/
def Mover.reloaded (s : Mover) : Mover :=
  { initial with mode := s.mode, pendingMode := s.pendingMode, start := s.start }

theorem Mover.reads_get (s : Mover) : get.Reads s.put s.reloaded := by
  unfold get put
  rw [List.append_assoc]
  refine (reads_choice PathMode.ofTag?_tag s.mode).bind ?_
  refine (reads_optionalChoice PathMode.ofTag?_tag s.pendingMode).bind ?_
  exact (reads_field (Value.fixed_vec3.exact s.start)).last (reads_pure s.reloaded)

theorem Evaluator.arityOf_tag (r : Rank) : arityOf r.tag = .ok r := by
  rw [arityOf, Rank.ofTag?_tag]

variable [Formula.Engine]

/-- The formula that is shown waits to be compiled. -/
def Evaluator.reloaded (s : Evaluator) : Evaluator :=
  { initial with
    arity := s.arity, pendingArity := s.pendingArity, pendingSource := some s.expression,
    compiled := none }

theorem Evaluator.reads_get {s : Evaluator} (h : s.put.length < sizeLimit) :
    get.Reads s.put s.reloaded := by
  have htext : (text.put s.expression).length < sizeLimit := by
    unfold put at h
    simp only [List.length_append] at h
    omega
  unfold get put
  rw [List.append_assoc]
  refine (reads_field (fixed_u8.exact s.arity.tag)).bind ?_
  refine Reads.bind (x := []) (reads_ofExcept (arityOf_tag s.arity)) ?_
  refine (reads_field (fixed_u8.optional (s.pendingArity.map Rank.tag))).bind ?_
  obtain ⟨arity, pendingArity, source, pendingSource, compiled, error⟩ := s
  have hsource := reads_field (faithful_text _ htext)
  cases pendingArity with
  | none => exact Reads.bind (x := []) (reads_pure none) (hsource.last (reads_pure _))
  | some r =>
      have harity := (reads_ofExcept (arityOf_tag r)).map some
      exact Reads.bind (x := []) harity (hsource.last (reads_pure _))

/-- The formulas wait to be compiled, and the inputs to be replaced. -/
def Generator.reloaded (s : Generator) : Generator :=
  { initial with
    element := s.element, dimension := s.dimension, extraNames := s.extraNames,
    sources := s.sources }

theorem Generator.reads_get {s : Generator} (h : s.put.length < sizeLimit) :
    get.Reads s.put s.reloaded := by
  have hsources : s.sources.toList.flatMap text.put =
      text.put s.sources.x ++ (text.put s.sources.y ++ (text.put s.sources.z ++
        text.put s.sources.w)) := by
    simp [Components.toList]
  unfold put at h ⊢
  rw [hsources] at h ⊢
  simp only [List.length_append] at h
  unfold get
  rw [List.append_assoc, List.append_assoc]
  refine (reads_choice ElementKind.ofTag?_tag s.element).bind ?_
  refine (reads_choice Rank.ofTag?_tag s.dimension).bind ?_
  refine (reads_field (faithful_text s.extraNames (by omega))).bind ?_
  refine (reads_field (faithful_text s.sources.x (by omega))).bind ?_
  refine (reads_field (faithful_text s.sources.y (by omega))).bind ?_
  refine (reads_field (faithful_text s.sources.z (by omega))).bind ?_
  exact (reads_field (faithful_text s.sources.w (by omega))).last (reads_pure s.reloaded)

namespace Behavior

/-- The behavior after it has been saved and loaded. -/
def reloaded : Behavior → Behavior
  | value s => value s
  | vector s => vector s
  | color s => color s
  | math s => math s.reloaded
  | function s => function s.reloaded
  | list s => list s.reloaded
  | listAccess s => listAccess s.reloaded
  | listJoin _ => listJoin .initial
  | time => time
  | display _ => display .initial
  | feedback _ => feedback .initial
  | mesh s => mesh s.reloaded
  | camera s => camera s
  | render s => render s
  | path s => path s.reloaded
  | worldPos s => worldPos s

theorem reads_get {b : Behavior} (h : b.put.length < sizeLimit) :
    (get b.type).Reads b.put b.reloaded := by
  cases b with
  | value s => exact s.reads_get.map value
  | vector s => exact s.reads_get.map vector
  | color s => exact s.reads_get.map color
  | math s => exact s.reads_get.map math
  | function s => exact (Evaluator.reads_get h).map function
  | list s => exact (Generator.reads_get h).map list
  | listAccess s => exact s.reads_get.map listAccess
  | listJoin s => exact reads_pure (listJoin .initial)
  | time => exact reads_pure time
  | display s => exact reads_pure (display .initial)
  | feedback s => exact reads_pure (feedback .initial)
  | mesh s => exact (MeshSource.reads_get h).map mesh
  | camera s => exact s.reads_get.map camera
  | render s => exact s.reads_get.map render
  | path s => exact s.reads_get.map path
  | worldPos s => exact s.reads_get.map worldPos

theorem type_reloaded (b : Behavior) : b.reloaded.type = b.type := by
  cases b <;> rfl

/-- Loading once more changes nothing. -/
theorem reloaded_reloaded (b : Behavior) : b.reloaded.reloaded = b.reloaded := by
  cases b <;> rfl

/-- What is written of a behavior is what is left of it after a load. -/
theorem put_reloaded (b : Behavior) : b.reloaded.put = b.put := by
  cases b <;> rfl

/-- Being told of the wiring changes nothing that is saved. -/
theorem reloaded_connected (b : Behavior) (input : String) (p : ProducerInfo) :
    (b.connected input p).reloaded = b.reloaded := by
  cases b with
  | path s =>
      show path (s.connected input).reloaded = path s.reloaded
      unfold Mover.connected
      split <;> rfl
  | _ => rfl

theorem reloaded_disconnected (b : Behavior) (input : String) :
    (b.disconnected input).reloaded = b.reloaded := by
  cases b with
  | path s =>
      show path (s.disconnected input).reloaded = path s.reloaded
      unfold Mover.disconnected
      split
      · rfl
      · split <;> rfl
  | _ => rfl

end Behavior

end Patchbay
