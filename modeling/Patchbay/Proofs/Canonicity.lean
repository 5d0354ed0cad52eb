import Patchbay.Proofs.Payloads
/-!
What can be read has one way of being written.

`Wire.Canonical` is the law in both directions: of the values that satisfy
`D` a wire reads what it writes, and it reads nothing else.  For a word `D`
bounds the number by the width, for a text or a list it bounds the length,
which is written in eight bytes, and for everything of one width it holds of
all values (`Wire.Complete`).  A flag or the mark of an optional value is one
byte of which two values are read, and a text is read from UTF-8 without a
second form, so no part of the format is lenient by itself.

Payloads inherit the law, because they have to fill the bytes that they are
read from; only the render parameters are read from the front of them.
-/

namespace Patchbay.Bytes.Wire

variable {α β : Type}

/-- A wire reads exactly what it writes of the values that satisfy `D`: such a value comes back,
whatever follows it, and whatever is read was written of such a value. -/
structure Canonical (w : Wire α) (D : α → Prop) : Prop where
  exact : ∀ a, D a → w.Exact a
  written : ∀ {bs a rest}, w.get bs = .ok (a, rest) → D a ∧ bs = w.put a ++ rest

theorem Canonical.congr {w : Wire α} {D E : α → Prop} (h : w.Canonical D) (hD : ∀ a, D a ↔ E a) :
    w.Canonical E where
  exact a ha := h.exact a ((hD a).mpr ha)
  written hget :=
    have ⟨ha, hbytes⟩ := h.written hget
    ⟨(hD _).mp ha, hbytes⟩

/-! ## Words -/

theorem eq_append_of_takeBytes {n : Nat} {bs front rest : List UInt8}
    (h : takeBytes n bs = .ok (front, rest)) : front.length = n ∧ bs = front ++ rest := by
  unfold takeBytes at h
  dsimp only at h
  split at h
  · next hlength =>
      cases h
      exact ⟨hlength, (List.take_append_drop n bs).symm⟩
  · exact nomatch h

theorem ofLittleEndian_lt (bytes : List UInt8) : ofLittleEndian bytes < limit bytes.length := by
  induction bytes with
  | nil => exact Nat.one_pos
  | cons b bytes ih =>
      have hb := b.toNat_lt
      have hstep : limit (b :: bytes).length = limit bytes.length * 256 := rfl
      rw [hstep, ofLittleEndian]
      omega

theorem littleEndian_ofLittleEndian (bytes : List UInt8) :
    littleEndian bytes.length (ofLittleEndian bytes) = bytes := by
  induction bytes with
  | nil => rfl
  | cons b bytes ih =>
      have hb := b.toNat_lt
      have hlow : (b.toNat + 256 * ofLittleEndian bytes) % 256 = b.toNat := by omega
      have hhigh : (b.toNat + 256 * ofLittleEndian bytes) / 256 = ofLittleEndian bytes := by omega
      rw [List.length_cons, ofLittleEndian, littleEndian, hlow, hhigh, ih, UInt8.ofNat_toNat]

theorem canonical_word (width : Nat) : (word width).Canonical (· < limit width) where
  exact _ h := exact_word h
  written {bs n rest} h := by
    unfold word at h
    dsimp only at h
    cases htake : takeBytes width bs with
    | error e =>
        rw [htake] at h
        exact nomatch h
    | ok r =>
        obtain ⟨front, back⟩ := r
        rw [htake] at h
        cases h
        obtain ⟨rfl, hbytes⟩ := eq_append_of_takeBytes htake
        refine ⟨ofLittleEndian_lt front, ?_⟩
        show bs = littleEndian front.length (ofLittleEndian front) ++ _
        rw [littleEndian_ofLittleEndian, hbytes]

theorem Canonical.viaMap {w : Wire α} {D : α → Prop} (h : w.Canonical D) {forth : β → α}
    {back : α → β} (hback : ∀ b, back (forth b) = b) (hforth : ∀ a, D a → forth (back a) = a) :
    (w.viaMap forth back).Canonical fun b => D (forth b) where
  exact b hb := (h.exact (forth b) hb).viaMap (hback b)
  written {bs b rest} hget := by
    unfold Wire.viaMap at hget ⊢
    dsimp only at hget ⊢
    cases hread : w.get bs with
    | error e =>
        rw [hread] at hget
        exact nomatch hget
    | ok r =>
        obtain ⟨a, back'⟩ := r
        rw [hread] at hget
        cases hget
        obtain ⟨ha, hbytes⟩ := h.written hread
        rw [hforth a ha]
        exact ⟨ha, hbytes⟩

/-- Every value can be written, and nothing else is read. -/
abbrev Complete (w : Wire α) : Prop := w.Canonical fun _ => True

theorem Complete.viaMap {w : Wire α} (h : w.Complete) {forth : β → α} {back : α → β}
    (hback : ∀ b, back (forth b) = b) (hforth : ∀ a, forth (back a) = a) :
    (w.viaMap forth back).Complete :=
  Canonical.viaMap h hback fun a _ => hforth a

theorem complete_u8 : u8.Complete :=
  ((canonical_word 1).viaMap (fun _ => UInt8.ofNat_toNat) fun _ h =>
    UInt8.toNat_ofNat_of_lt' h).congr fun a => iff_of_true a.toNat_lt trivial

theorem complete_u32 : u32.Complete :=
  ((canonical_word 4).viaMap (fun _ => UInt32.ofNat_toNat) fun _ h =>
    UInt32.toNat_ofNat_of_lt' h).congr fun a => iff_of_true a.toNat_lt trivial

theorem complete_u64 : u64.Complete :=
  ((canonical_word 8).viaMap (fun _ => UInt64.ofNat_toNat) fun _ h =>
    UInt64.toNat_ofNat_of_lt' h).congr fun a => iff_of_true a.toNat_lt trivial

theorem complete_i32 : i32.Complete := complete_u32.viaMap (fun _ => rfl) fun _ => rfl

theorem complete_single : single.Complete := complete_u32.viaMap (fun _ => rfl) fun _ => rfl

theorem complete_flag : flag.Complete where
  exact b _ := fixed_flag.exact b
  written {bs b rest} h := by
    refine ⟨trivial, ?_⟩
    cases bs with
    | nil => exact nomatch h
    | cons byte bs =>
        unfold flag at h
        dsimp only at h
        split at h
        · next hzero =>
            cases h
            rw [hzero]
            rfl
        · split at h
          · next hone =>
              cases h
              rw [hone]
              rfl
          · exact nomatch h

/-! ## Several parts -/

theorem canonical_block : block.Canonical (·.length < sizeLimit) where
  exact _ h := exact_block h
  written {bs bytes rest} h := by
    obtain ⟨⟨n, back⟩, hlength, hbytes⟩ := except_bind_eq_ok.mp h
    obtain ⟨hn, hbs⟩ := (canonical_word 8).written hlength
    obtain ⟨rfl, rfl⟩ := eq_append_of_takeBytes hbytes
    refine ⟨hn, ?_⟩
    show bs = (word 8).put bytes.length ++ bytes ++ rest
    rw [hbs, List.append_assoc]

theorem canonical_text : text.Canonical fun s => (Text.Utf8.encode s).length < sizeLimit where
  exact _ h := exact_text h
  written {bs s rest} h := by
    obtain ⟨⟨bytes, back⟩, hblock, hdecode⟩ := except_bind_eq_ok.mp h
    obtain ⟨hbytes, hbs⟩ := canonical_block.written hblock
    dsimp only at hdecode
    split at hdecode
    · next s' hs =>
        cases hdecode
        have hencode := Text.Utf8.encode_of_decode hs
        rw [← hencode] at hbytes hbs
        exact ⟨hbytes, hbs⟩
    · exact nomatch hdecode

theorem Canonical.pair {v : Wire α} {w : Wire β} {D : α → Prop} {E : β → Prop}
    (hv : v.Canonical D) (hw : w.Canonical E) : (pair v w).Canonical fun p => D p.1 ∧ E p.2 where
  exact p h := (hv.exact p.1 h.1).pair (hw.exact p.2 h.2)
  written {bs p rest} h := by
    obtain ⟨⟨a, back⟩, hfirst, h⟩ := except_bind_eq_ok.mp h
    obtain ⟨⟨b, back'⟩, hsecond, h⟩ := except_bind_eq_ok.mp h
    cases h
    obtain ⟨ha, rfl⟩ := hv.written hfirst
    obtain ⟨hb, rfl⟩ := hw.written hsecond
    refine ⟨⟨ha, hb⟩, ?_⟩
    show v.put a ++ (w.put b ++ rest) = v.put a ++ w.put b ++ rest
    rw [List.append_assoc]

theorem Complete.pair {v : Wire α} {w : Wire β} (hv : v.Complete) (hw : w.Complete) :
    (pair v w).Complete :=
  (Canonical.pair hv hw).congr fun _ => iff_of_true ⟨trivial, trivial⟩ trivial

theorem Canonical.optional {w : Wire α} {D : α → Prop} (h : w.Canonical D) :
    (optional w).Canonical fun o => ∀ a, o = some a → D a where
  exact _ ho := Exact.optional fun a ha => h.exact a (ho a ha)
  written {bs o rest} hget := by
    cases bs with
    | nil => exact nomatch hget
    | cons byte bs =>
        unfold Wire.optional at hget
        dsimp only at hget
        split at hget
        · next hzero =>
            cases hget
            rw [hzero]
            exact ⟨nofun, rfl⟩
        · split at hget
          · next hone =>
              cases hread : w.get bs with
              | error e =>
                  rw [hread] at hget
                  exact nomatch hget
              | ok r =>
                  rw [hread] at hget
                  cases hget
                  obtain ⟨ha, hbs⟩ := h.written hread
                  refine ⟨fun a heq => Option.some.inj heq ▸ ha, ?_⟩
                  rw [hone, hbs]
                  rfl
          · exact nomatch hget

theorem Complete.optional {w : Wire α} (h : w.Complete) : (optional w).Complete :=
  (Canonical.optional h).congr fun _ => iff_of_true (fun _ _ => trivial) trivial

theorem Canonical.getMany {w : Wire α} {D : α → Prop} (h : w.Canonical D) {done as : List α}
    {n : Nat} {bs rest : List UInt8} (hget : w.getMany done n bs = .ok (as, rest)) :
    ∃ read, as = done.reverse ++ read ∧ read.length = n ∧ (∀ a ∈ read, D a) ∧
      bs = read.flatMap w.put ++ rest := by
  induction n generalizing done bs with
  | zero =>
      cases hget
      exact ⟨[], (List.append_nil _).symm, rfl, nofun, rfl⟩
  | succ n ih =>
      unfold Wire.getMany at hget
      split at hget
      · next a back hread =>
          obtain ⟨ha, rfl⟩ := h.written hread
          obtain ⟨read, has, hlength, hD, rfl⟩ := ih hget
          refine ⟨a :: read, ?_, congrArg Nat.succ hlength, ?_, ?_⟩
          · rw [has, List.reverse_cons, List.append_assoc]
            rfl
          · exact List.forall_mem_cons.mpr ⟨ha, hD⟩
          · rw [List.flatMap_cons, List.append_assoc]
      · exact nomatch hget

theorem Canonical.list {w : Wire α} {D : α → Prop} (h : w.Canonical D) :
    (list w).Canonical fun as => as.length < sizeLimit ∧ ∀ a ∈ as, D a where
  exact _ has := Exact.list has.1 fun a ha => h.exact a (has.2 a ha)
  written {bs as rest} hget := by
    obtain ⟨⟨n, back⟩, hcount, hmany⟩ := except_bind_eq_ok.mp hget
    obtain ⟨hn, rfl⟩ := (canonical_word 8).written hcount
    obtain ⟨read, has, rfl, hD, rfl⟩ := h.getMany hmany
    have hall : as = read := has
    subst hall
    refine ⟨⟨hn, hD⟩, ?_⟩
    show _ = (word 8).put as.length ++ as.flatMap w.put ++ rest
    rw [List.append_assoc]

end Patchbay.Bytes.Wire

namespace Patchbay.Value

open Bytes Wire

theorem complete_vec2 : vec2Wire.Complete :=
  (complete_single.pair complete_single).viaMap (fun _ => rfl) fun _ => rfl

theorem complete_vec3 : vec3Wire.Complete :=
  (complete_single.pair (complete_single.pair complete_single)).viaMap (fun _ => rfl) fun _ => rfl

theorem complete_vec4 : vec4Wire.Complete :=
  (complete_single.pair (complete_single.pair (complete_single.pair complete_single))).viaMap
    (fun _ => rfl) fun _ => rfl

/-- The lengths of the lists in render parameters are written in eight bytes, which suffice for any
that a memory holds. -/
def Countable : Value → Prop
  | .render r => r.positions.length < sizeLimit ∧ r.colors.length < sizeLimit
  | _ => True

theorem canonical_render : renderWire.Canonical fun r => (Value.render r).Countable := by
  have hfog := complete_single.pair (complete_single.pair complete_vec3)
  have htail := Canonical.pair complete_u32 hfog
  have hlists := complete_vec3.list.pair (complete_vec4.list.pair htail)
  exact ((Canonical.pair complete_u32 hlists).viaMap (fun _ => rfl) fun _ _ => rfl).congr fun r => by
    simp [Countable]

section Rows
variable {α : Type} {w : Wire α} {width : Nat} {bytes : List UInt8}

theorem readOne_eq_ok_iff (h : w.Fixed width) (hw : w.Complete) {k : Kind} {a : α} :
    readOne k width w bytes = .ok a ↔ w.put a = bytes := by
  constructor
  · intro hread
    unfold readOne at hread
    split at hread
    · next hlength =>
        split at hread
        · next a' rest hget =>
            cases hread
            obtain ⟨-, rfl⟩ := hw.written hget
            rw [List.length_append, h.length_put] at hlength
            have hrest : rest = [] := List.length_eq_zero_iff.mp (by omega)
            rw [hrest, List.append_nil]
        · exact nomatch hread
    · exact nomatch hread
  · rintro rfl
    exact readOne_put h k a

theorem readRow_eq_ok_iff (h : w.Fixed width) (hwidth : 0 < width) (hw : w.Complete) {k : Kind}
    {as : List α} : readRow k width w bytes = .ok as ↔ as.flatMap w.put = bytes := by
  constructor
  · intro hread
    unfold readRow at hread
    split at hread
    · next hmod =>
        split at hread
        · next as' rest hget =>
            cases hread
            obtain ⟨read, has, hcount, -, rfl⟩ := hw.getMany hget
            have hall : as = read := has
            subst hall
            have hlength := h.length_flatMap as
            have hwhole := Nat.div_mul_cancel (Nat.dvd_of_mod_eq_zero hmod)
            rw [← hcount, ← hlength, List.length_append] at hwhole
            have hrest : rest = [] := List.length_eq_zero_iff.mp (by omega)
            rw [hrest, List.append_nil]
        · exact nomatch hread
    · exact nomatch hread
  · rintro rfl
    exact readRow_flatMap h hwidth k as

end Rows

theorem readRender_eq_ok_iff {bytes : List UInt8} {r : RenderData} :
    readRender bytes = .ok r ↔ (Value.render r).Countable ∧ renderWire.put r <+: bytes := by
  unfold readRender
  constructor
  · intro h
    split at h
    · next r' rest hget =>
        cases h
        obtain ⟨hr, hbytes⟩ := canonical_render.written hget
        exact ⟨hr, rest, hbytes.symm⟩
    · exact nomatch h
  · rintro ⟨hr, rest, rfl⟩
    rw [canonical_render.exact r hr rest]


/-- What is known of the constructor of a kind makes a reader of its contents exact. -/
theorem map_eq_ok_iff {α : Type} {k : Kind} {bytes : List UInt8} {x : Except ValueError α}
    {f : α → Value} (hx : ∀ a, x = .ok a ↔ (f a).toBytes = bytes)
    (hkind : ∀ v : Value, v.kind = k ↔ ∃ a, f a = v) {v : Value} :
    x.map f = .ok v ↔ v.kind = k ∧ v.toBytes = bytes := by
  constructor
  · intro h
    cases x with
    | error e => exact nomatch h
    | ok a =>
        cases h
        exact ⟨(hkind _).mpr ⟨a, rfl⟩, (hx a).mp rfl⟩
  · rintro ⟨hk, hbytes⟩
    obtain ⟨a, rfl⟩ := (hkind v).mp hk
    rw [(hx a).mpr hbytes]
    rfl

/-- Payloads of every kind but the render parameters are read from their own bytes and from no
others. -/
theorem ofBytes_eq_ok_iff_of_ne {k : Kind} (hk : k ≠ .render) {bytes : List UInt8} {v : Value} :
    ofBytes k bytes = .ok v ↔ v.kind = k ∧ v.toBytes = bytes := by
  have hone {α : Type} {w : Wire α} {width : Nat} (hfixed : w.Fixed width) (hw : w.Complete)
      {f : α → Value} (hput : ∀ a, (f a).toBytes = w.put a)
      (hkind : ∀ v : Value, v.kind = k ↔ ∃ a, f a = v) :
      (readOne k width w bytes).map f = .ok v ↔ v.kind = k ∧ v.toBytes = bytes :=
    map_eq_ok_iff (fun a => by rw [readOne_eq_ok_iff hfixed hw, hput]) hkind
  have hrow {α : Type} {w : Wire α} {width : Nat} (hfixed : w.Fixed width) (hwidth : 0 < width)
      (hw : w.Complete) {f : List α → Value} (hput : ∀ as, (f as).toBytes = as.flatMap w.put)
      (hkind : ∀ v : Value, v.kind = k ↔ ∃ as, f as = v) :
      (readRow k width w bytes).map f = .ok v ↔ v.kind = k ∧ v.toBytes = bytes :=
    map_eq_ok_iff (fun as => by rw [readRow_eq_ok_iff hfixed hwidth hw, hput]) hkind
  cases k with
  | render => exact absurd rfl hk
  | empty =>
      have hempty : ofBytes .empty bytes = .ok v ↔ v = .empty ∧ bytes = [] := by
        cases bytes <;> simp [ofBytes, eq_comm]
      rw [hempty]
      cases v <;> simp [kind, toBytes, eq_comm]
  | float => exact hone fixed_single complete_single (fun _ => rfl) fun v => by cases v <;> simp [kind]
  | int => exact hone fixed_i32 complete_i32 (fun _ => rfl) fun v => by cases v <;> simp [kind]
  | uint => exact hone fixed_u32 complete_u32 (fun _ => rfl) fun v => by cases v <;> simp [kind]
  | vector2 => exact hone fixed_vec2 complete_vec2 (fun _ => rfl) fun v => by cases v <;> simp [kind]
  | vector3 => exact hone fixed_vec3 complete_vec3 (fun _ => rfl) fun v => by cases v <;> simp [kind]
  | vector4 => exact hone fixed_vec4 complete_vec4 (fun _ => rfl) fun v => by cases v <;> simp [kind]
  | floatArray =>
      exact hrow fixed_single (by decide) complete_single (fun _ => rfl) fun v => by
        cases v <;> simp [kind]
  | mesh =>
      have hkind : ∀ v : Value, v.kind = .mesh ↔ ∃ xs, Value.mesh ⟨xs⟩ = v := by
        intro v
        cases v with
        | mesh m => exact iff_of_true rfl ⟨m.floats, rfl⟩
        | _ => simp [kind]
      exact hrow fixed_single (by decide) complete_single (fun _ => rfl) hkind
  | floatList =>
      exact hrow fixed_single (by decide) complete_single (fun _ => rfl) fun v => by
        cases v <;> simp [kind]
  | intList =>
      exact hrow fixed_i32 (by decide) complete_i32 (fun _ => rfl) fun v => by
        cases v <;> simp [kind]
  | uintList =>
      exact hrow fixed_u32 (by decide) complete_u32 (fun _ => rfl) fun v => by
        cases v <;> simp [kind]
  | vector2List =>
      exact hrow fixed_vec2 (by decide) complete_vec2 (fun _ => rfl) fun v => by
        cases v <;> simp [kind]
  | vector3List =>
      exact hrow fixed_vec3 (by decide) complete_vec3 (fun _ => rfl) fun v => by
        cases v <;> simp [kind]
  | vector4List =>
      exact hrow fixed_vec4 (by decide) complete_vec4 (fun _ => rfl) fun v => by
        cases v <;> simp [kind]

/-- Render parameters are read from their own bytes, whatever follows these. -/
theorem ofBytes_render_eq_ok_iff {bytes : List UInt8} {v : Value} :
    ofBytes .render bytes = .ok v ↔ v.kind = .render ∧ v.Countable ∧ v.toBytes <+: bytes := by
  have hread : ofBytes .render bytes = .ok v ↔ ∃ r, readRender bytes = .ok r ∧ .render r = v := by
    unfold ofBytes
    cases readRender bytes with
    | error e => simp [Except.map]
    | ok r => simp [Except.map]
  rw [hread]
  constructor
  · rintro ⟨r, hr, rfl⟩
    exact ⟨rfl, readRender_eq_ok_iff.mp hr⟩
  · rintro ⟨hk, h⟩
    cases v with
    | render r => exact ⟨r, readRender_eq_ok_iff.mpr h, rfl⟩
    | _ => exact nomatch hk

/-- A payload is read exactly when it has the kind asked for and the bytes are its own: each kind has
one way of writing each value, and what is written comes back bit for bit.  Only the render
parameters, which end where their last field does, are also read from more bytes than they have. -/
theorem ofBytes_eq_ok_iff (k : Kind) (bytes : List UInt8) (v : Value) :
    ofBytes k bytes = .ok v ↔ v.kind = k ∧ v.Countable ∧
      if k = .render then v.toBytes <+: bytes else v.toBytes = bytes := by
  by_cases hk : k = .render
  · rw [if_pos hk, hk]
    exact ofBytes_render_eq_ok_iff
  · have hcount : v.kind = k → v.Countable := by
      rintro rfl
      cases v with
      | render r => exact absurd rfl hk
      | _ => trivial
    rw [if_neg hk, ofBytes_eq_ok_iff_of_ne hk]
    constructor
    · rintro ⟨hkind, hbytes⟩
      exact ⟨hkind, hcount hkind, hbytes⟩
    · rintro ⟨hkind, -, hbytes⟩
      exact ⟨hkind, hbytes⟩

/-- One instance without a place or a colour, in fog of width one. -/
def foggy : RenderData := ⟨1, [], [], 0, .zero, .one, .zero⟩

/-- A byte behind the last field is ignored, so two rows of bytes are read as the same parameters and
only one of them is written. -/
theorem ofBytes_foggy_with_spare_byte :
    ofBytes .render ((render foggy).toBytes ++ [0]) = .ok (render foggy) ∧
      ofBytes .render (render foggy).toBytes = .ok (render foggy) ∧
      (render foggy).toBytes ≠ (render foggy).toBytes ++ [0] :=
  ⟨rfl, rfl, by decide⟩

end Patchbay.Value
