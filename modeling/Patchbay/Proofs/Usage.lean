import Patchbay.Behavior.Basic
import Patchbay.Proofs.Buffers
/-!
What readers use up.

`Uses r Q` says of a reader what it makes of the bytes in front of it: if it
succeeds, the bytes between the old position and the new one and the result
satisfy `Q`.  Of the bytes it does not reach it says nothing.  Every field of
every type of node spends exactly the bytes that are written of it, so there
is no second way to write a tag, an option or a text.
-/

namespace Patchbay

open Bytes

/-! ## Tags -/

/-- In a list where each entry has its place for its tag, the entry at the place of a tag has that
tag. -/
theorem tag_of_indexed {α : Type} {all : List α} {tag : α → UInt8}
    (h : all.map tag = (List.range all.length).map UInt8.ofNat) {t : UInt8} {a : α}
    (ha : all[t.toNat]? = some a) : tag a = t := by
  have hmap := congrArg (·[t.toNat]?) h
  simp only [List.getElem?_map, ha, Option.map_some] at hmap
  obtain ⟨hlt, -⟩ := List.getElem?_eq_some_iff.mp ha
  rw [List.getElem?_range hlt, Option.map_some, UInt8.ofNat_toNat] at hmap
  exact Option.some.inj hmap

theorem Kind.tag_of_ofTag? {t : UInt8} {k : Kind} (h : ofTag? t = some k) : k.tag = t := by
  simpa using List.find?_some h

theorem Scalar.tag_of_ofTag? {t : UInt8} {s : Scalar} (h : ofTag? t = some s) : s.tag = t :=
  tag_of_indexed (by decide) h

theorem Operation.tag_of_ofTag? {t : UInt8} {o : Operation} (h : ofTag? t = some o) : o.tag = t :=
  tag_of_indexed (by decide) h

theorem ElementKind.tag_of_ofTag? {t : UInt8} {k : ElementKind} (h : ofTag? t = some k) :
    k.tag = t :=
  tag_of_indexed (by decide) h

theorem CameraMode.tag_of_ofTag? {t : UInt8} {m : CameraMode} (h : ofTag? t = some m) : m.tag = t :=
  tag_of_indexed (by decide) h

theorem PathMode.tag_of_ofTag? {t : UInt8} {m : PathMode} (h : ofTag? t = some m) : m.tag = t :=
  tag_of_indexed (by decide) h

theorem Priority.tag_of_ofTag? {t : UInt8} {p : Priority} (h : ofTag? t = some p) : p.tag = t := by
  unfold ofTag? at h
  repeat' split at h
  all_goals cases h
  all_goals exact Eq.symm ‹_›

theorem Rank.tag_of_ofTag? {t : UInt8} {r : Rank} (h : ofTag? t = some r) : r.tag = t := by
  unfold ofTag? at h
  repeat' split at h
  all_goals cases h
  all_goals exact Eq.symm ‹_›

/-! ## What a reader uses -/

namespace BlockReader

variable {α β : Type}

/-- When the reader succeeds, the bytes that it has used and what it has read satisfy `Q`. -/
def Uses (r : BlockReader α) (Q : List UInt8 → α → Prop) : Prop :=
  ∀ b a b', r b = .ok a b' → ∃ x, b.unread = x ++ b'.unread ∧ b'.bytes = b.bytes ∧ Q x a

/-- The bytes used are those written of what is read. -/
abbrev Spends (r : BlockReader α) (put : α → List UInt8) : Prop := Uses r fun x a => x = put a

theorem uses_pure {Q : List UInt8 → α → Prop} {a : α} (h : Q [] a) : Uses (pure a) Q := by
  intro b a' b' hr
  cases hr
  exact ⟨[], rfl, rfl, h⟩

theorem Uses.bind {r : BlockReader α} {f : α → BlockReader β} {Q : List UInt8 → α → Prop}
    {R : List UInt8 → β → Prop} (hr : Uses r Q)
    (hf : ∀ x a, Q x a → Uses (f a) fun y c => R (x ++ y) c) : Uses (r >>= f) R := by
  intro b c b' h
  simp only [Bind.bind, EStateM.bind] at h
  split at h
  · next a b₁ ha =>
      obtain ⟨x, hx, hbytes, hQ⟩ := hr b a b₁ ha
      obtain ⟨y, hy, hbytes', hR⟩ := hf x a hQ b₁ c b' h
      exact ⟨x ++ y, by rw [hx, hy, List.append_assoc], hbytes'.trans hbytes, hR⟩
  · exact nomatch h

theorem Spends.bind {r : BlockReader α} {f : α → BlockReader β} {put : α → List UInt8}
    {R : List UInt8 → β → Prop} (hr : Spends r put)
    (hf : ∀ a, Uses (f a) fun y c => R (put a ++ y) c) : Uses (r >>= f) R :=
  Uses.bind hr fun _ a hx => hx ▸ hf a

theorem Uses.map {r : BlockReader α} {f : α → β} {Q : List UInt8 → α → Prop}
    {R : List UInt8 → β → Prop} (hr : Uses r Q) (hf : ∀ x a, Q x a → R x (f a)) :
    Uses (f <$> r) R := by
  intro b c b' h
  simp only [Functor.map, EStateM.map] at h
  split at h
  · next a b₁ ha =>
      cases h
      obtain ⟨x, hx, hbytes, hQ⟩ := hr b a b' ha
      exact ⟨x, hx, hbytes, hf x a hQ⟩
  · exact nomatch h

theorem Spends.map {r : BlockReader α} {f : α → β} {put : α → List UInt8} {put' : β → List UInt8}
    (hr : Spends r put) (hput : ∀ a, put a = put' (f a)) : Spends (f <$> r) put' :=
  Uses.map hr fun _ a hx => hx.trans (hput a)

theorem uses_ofExcept {x : Except SceneError α} {Q : List UInt8 → α → Prop}
    (h : ∀ a, x = .ok a → Q [] a) : Uses (ofExcept x) Q := by
  intro b a b' hr
  cases x with
  | ok a' =>
      cases hr
      exact ⟨[], rfl, rfl, h _ rfl⟩
  | error e => exact nomatch hr

theorem uses_lift {r : Buffer.Reader α} {D : α → Prop} {put : α → List UInt8}
    (hr : Buffer.Decodes r D put) : Uses (lift r) fun x a => D a ∧ x = put a := by
  intro b a b' h
  simp only [lift] at h
  split at h
  · next a' b₁ hread =>
      cases h
      obtain ⟨ha, rest, hb, rfl⟩ := (hr b a b').mp hread
      exact ⟨put a, by rw [Buffer.unread_leaving hb, hb], rfl, ha, rfl⟩
  · exact nomatch h

theorem uses_field {w : Wire α} {D : α → Prop} (hw : w.Canonical D) :
    Uses (field w) fun x a => D a ∧ x = w.put a :=
  uses_lift (Buffer.decodes_get hw)

theorem spends_field {w : Wire α} {D : α → Prop} (hw : w.Canonical D) : Spends (field w) w.put :=
  fun b a b' h =>
    have ⟨x, hx, hbytes, hQ⟩ := uses_field hw b a b' h
    ⟨x, hx, hbytes, hQ.2⟩

theorem named_eq_ok {what : String} {ofTag? : UInt8 → Option α} {byte : UInt8} {a : α}
    (h : named what ofTag? byte = .ok a) : ofTag? byte = some a := by
  unfold named at h
  split at h
  · next a' ha =>
      cases h
      exact ha
  · exact nomatch h

section Choices
variable {what : String} {ofTag? : UInt8 → Option α} {tag : α → UInt8}

theorem spends_choice (h : ∀ {t a}, ofTag? t = some a → tag a = t) :
    Spends (choice what ofTag?) fun a => Wire.u8.put (tag a) := by
  unfold choice
  refine (spends_field Wire.complete_u8).bind fun byte => uses_ofExcept fun a ha => ?_
  show Wire.u8.put byte ++ [] = Wire.u8.put (tag a)
  rw [List.append_nil, h (named_eq_ok ha)]

theorem spends_optionalChoice (h : ∀ {t a}, ofTag? t = some a → tag a = t) :
    Spends (optionalChoice what ofTag?) fun a => (Wire.optional Wire.u8).put (a.map tag) := by
  unfold optionalChoice
  refine (spends_field Wire.complete_u8.optional).bind fun byte => ?_
  cases byte with
  | none => exact uses_pure (List.append_nil _)
  | some byte =>
      have hnamed : Uses (ofExcept (named what ofTag? byte)) fun x a => x = [] ∧ tag a = byte :=
        uses_ofExcept fun a ha => ⟨rfl, h (named_eq_ok ha)⟩
      refine hnamed.bind ?_
      rintro x a ⟨rfl, rfl⟩
      exact uses_pure (List.append_nil _)

end Choices

theorem uses_many {r : BlockReader α} {put : α → List UInt8} (hr : Spends r put) (n : Nat) :
    Uses (many r n) fun x as => as.length = n ∧ x = as.flatMap put := by
  induction n with
  | zero => exact uses_pure ⟨rfl, rfl⟩
  | succ n ih =>
      refine hr.bind fun a => ih.bind ?_
      rintro x as ⟨hlength, rfl⟩
      refine uses_pure ⟨congrArg Nat.succ hlength, ?_⟩
      rw [List.append_nil, List.flatMap_cons]

end BlockReader

/-! ## The fields of each type -/

open BlockReader Wire Value

theorem Constant.spends_get : get.Spends put := by
  refine (spends_choice Scalar.tag_of_ofTag?).bind fun scalar => ?_
  refine (spends_field complete_u32.optional).bind fun pending => uses_pure ?_
  simp [put]

theorem Quadruple.spends_get : get.Spends put :=
  (spends_field complete_vec4.optional).bind fun pending => uses_pure (by simp [put])

theorem Tint.spends_get : get.Spends put :=
  (spends_field complete_vec4.optional).bind fun pending => uses_pure (by simp [put])

theorem Offset.spends_get : get.Spends put := by
  refine (spends_field complete_vec3).bind fun delta => ?_
  refine (spends_field complete_vec3.optional).bind fun pending => uses_pure ?_
  simp [put]

theorem Camera.spends_get : get.Spends put := by
  refine (spends_choice CameraMode.tag_of_ofTag?).bind fun mode => ?_
  refine (spends_optionalChoice CameraMode.tag_of_ofTag?).bind fun pendingMode => ?_
  refine (spends_field complete_vec3).bind fun position => ?_
  refine (spends_field complete_vec3).bind fun forward => uses_pure ?_
  simp [put]

theorem Collector.spends_get : get.Spends put := by
  refine (spends_field complete_single).bind fun fogMin => ?_
  refine (spends_field complete_single).bind fun fogMax => ?_
  refine (spends_field complete_vec3).bind fun fogColor => uses_pure ?_
  simp [put]

theorem Arithmetic.spends_get : get.Spends put :=
  (spends_choice Operation.tag_of_ofTag?).bind fun operation => uses_pure (by simp [put])

theorem Selector.spends_get : get.Spends put :=
  (spends_field complete_i32).bind fun index => uses_pure (by simp [put])

theorem Evaluator.tag_of_arityOf {byte : UInt8} {r : Rank} (h : arityOf byte = .ok r) :
    r.tag = byte := by
  unfold arityOf at h
  split at h
  · next r' hr =>
      cases h
      exact Rank.tag_of_ofTag? hr
  · exact nomatch h

theorem MeshSource.spends_get : get.Spends put :=
  (spends_field canonical_text).bind fun path => uses_pure (by simp [put, currentPath])

theorem Mover.spends_get : get.Spends put := by
  refine (spends_choice PathMode.tag_of_ofTag?).bind fun mode => ?_
  refine (spends_optionalChoice PathMode.tag_of_ofTag?).bind fun pendingMode => ?_
  refine (spends_field complete_vec3).bind fun start => uses_pure ?_
  simp [put]

variable [Formula.Engine]

theorem Evaluator.spends_get : get.Spends put := by
  have harity (byte : UInt8) : Uses (BlockReader.ofExcept (arityOf byte)) fun x r =>
      x = [] ∧ r.tag = byte :=
    uses_ofExcept fun r hr => ⟨rfl, tag_of_arityOf hr⟩
  refine (spends_field complete_u8).bind fun byte => (harity byte).bind ?_
  rintro x arity ⟨rfl, rfl⟩
  refine (spends_field complete_u8.optional).bind fun pending => ?_
  cases pending with
  | none =>
      refine (spends_field canonical_text).bind fun source => uses_pure ?_
      simp [put, expression]
  | some byte =>
      have hpending : Uses (some <$> BlockReader.ofExcept (arityOf byte)) fun x r =>
          x = [] ∧ some byte = r.map Rank.tag :=
        (harity byte).map fun x r ⟨hx, hr⟩ => ⟨hx, congrArg some hr.symm⟩
      refine hpending.bind ?_
      rintro x pendingArity ⟨rfl, hbyte⟩
      refine (spends_field canonical_text).bind fun source => uses_pure ?_
      simp [put, expression, hbyte]

theorem Generator.spends_get : get.Spends put := by
  refine (spends_choice ElementKind.tag_of_ofTag?).bind fun element => ?_
  refine (spends_choice Rank.tag_of_ofTag?).bind fun dimension => ?_
  refine (spends_field canonical_text).bind fun extraNames => ?_
  refine (spends_field canonical_text).bind fun x => ?_
  refine (spends_field canonical_text).bind fun y => ?_
  refine (spends_field canonical_text).bind fun z => ?_
  refine (spends_field canonical_text).bind fun w => uses_pure ?_
  simp [put, Components.toList]

/-- The fields of a type are written in the bytes that they were read from. -/
theorem Behavior.spends_get (t : NodeType) : (get t).Spends put := by
  cases t with
  | value => exact Constant.spends_get.map fun _ => rfl
  | vector => exact Quadruple.spends_get.map fun _ => rfl
  | color => exact Tint.spends_get.map fun _ => rfl
  | math => exact Arithmetic.spends_get.map fun _ => rfl
  | function => exact Evaluator.spends_get.map fun _ => rfl
  | list => exact Generator.spends_get.map fun _ => rfl
  | listAccess => exact Selector.spends_get.map fun _ => rfl
  | listJoin => exact uses_pure rfl
  | time => exact uses_pure rfl
  | display => exact uses_pure rfl
  | feedback => exact uses_pure rfl
  | mesh => exact MeshSource.spends_get.map fun _ => rfl
  | camera => exact Camera.spends_get.map fun _ => rfl
  | render => exact Collector.spends_get.map fun _ => rfl
  | path => exact Mover.spends_get.map fun _ => rfl
  | worldPos => exact Offset.spends_get.map fun _ => rfl

end Patchbay
