import Mathlib.Data.List.Forall2
import Patchbay.Bytes.Wire
import Patchbay.Proofs.Characters
/-!
Values come back from their bytes.

A wire reads exactly what it wrote and leaves what follows alone
(`Wire.Exact`).  Numbers of fixed width, flags and what is made of them do
so always; a length is written in eight bytes, so texts, blocks and lists do
so up to a size that no memory holds.  `Faithful` collects the two: the
value comes back when its bytes are fewer than that.
-/

namespace Patchbay

theorem except_bind_eq_ok {ε α β : Type} {x : Except ε α} {f : α → Except ε β} {b : β} :
    (x >>= f) = .ok b ↔ ∃ a, x = .ok a ∧ f a = .ok b := by
  cases x with
  | ok a => simp [Bind.bind, Except.bind]
  | error e => simp [Bind.bind, Except.bind]

section Rows
variable {ε α β : Type} {f : α → Except ε β}

/-- A row of results is there when each of them is. -/
theorem except_mapM_eq_ok {as : List α} {bs : List β} :
    as.mapM f = .ok bs ↔ List.Forall₂ (fun a b => f a = .ok b) as bs := by
  induction as generalizing bs with
  | nil =>
      rw [List.mapM_nil, List.forall₂_nil_left_iff]
      exact ⟨fun h => (Except.ok.inj h).symm, fun h => h ▸ rfl⟩
  | cons a as ih =>
      simp only [List.mapM_cons, except_bind_eq_ok, ih, List.forall₂_cons_left_iff]
      constructor
      · rintro ⟨b, hb, rest, hrest, h⟩
        exact ⟨b, rest, hb, hrest, (Except.ok.inj h).symm⟩
      · rintro ⟨b, rest, hb, hrest, rfl⟩
        exact ⟨b, hb, rest, hrest, rfl⟩

end Rows

end Patchbay

namespace Patchbay.Bytes

/-- How many numbers can be written in so many bytes. -/
def limit (width : Nat) : Nat := Nat.pow 256 width

/-- The number of bytes from which on a length does not fit its eight bytes. -/
def sizeLimit : Nat := limit 8

namespace Wire

variable {α β : Type}

/-- What is written of a value is read as the value, whatever follows. -/
def Exact (w : Wire α) (a : α) : Prop := ∀ rest, w.get (w.put a ++ rest) = .ok (a, rest)

/-- Every value comes back whose bytes can be counted. -/
def Faithful (w : Wire α) : Prop := ∀ a, (w.put a).length < sizeLimit → w.Exact a

/-- All values are written in one number of bytes, and come back. -/
structure Fixed (w : Wire α) (width : Nat) : Prop where
  length_put : ∀ a, (w.put a).length = width
  exact : ∀ a, w.Exact a

theorem Fixed.length_pos {w : Wire α} {width : Nat} (h : w.Fixed width) (hwidth : 0 < width)
    (a : α) : 0 < (w.put a).length := by
  rw [h.length_put]
  exact hwidth

theorem Fixed.put_ne_nil {w : Wire α} {width : Nat} (h : w.Fixed width) (hwidth : 0 < width)
    (a : α) : w.put a ≠ [] :=
  List.length_pos_iff.mp (h.length_pos hwidth a)

theorem Fixed.faithful {w : Wire α} {width : Nat} (h : w.Fixed width) : w.Faithful :=
  fun a _ => h.exact a

/-! ## Words -/

theorem length_littleEndian (width n : Nat) : (littleEndian width n).length = width := by
  induction width generalizing n with
  | zero => rfl
  | succ width ih => simp [littleEndian, ih]

theorem ofLittleEndian_littleEndian {width n : Nat} (h : n < limit width) :
    ofLittleEndian (littleEndian width n) = n := by
  induction width generalizing n with
  | zero =>
      have hn : n = 0 := Nat.lt_one_iff.mp h
      rw [hn]
      rfl
  | succ width ih =>
      have hdiv : n / 256 < limit width := by
        rw [Nat.div_lt_iff_lt_mul (by decide)]
        exact h
      have hbyte : (UInt8.ofNat (n % 256)).toNat = n % 256 :=
        Nat.mod_eq_of_lt (Nat.mod_lt n (by decide))
      rw [littleEndian, ofLittleEndian, ih hdiv, hbyte]
      omega

theorem takeBytes_append (front rest : List UInt8) :
    takeBytes front.length (front ++ rest) = .ok (front, rest) := by
  simp [takeBytes]

theorem exact_word {width n : Nat} (h : n < limit width) : (word width).Exact n := by
  intro rest
  have htake := takeBytes_append (littleEndian width n) rest
  rw [length_littleEndian] at htake
  show (takeBytes width (littleEndian width n ++ rest)).map _ = _
  rw [htake]
  show Except.ok (ofLittleEndian (littleEndian width n), rest) = _
  rw [ofLittleEndian_littleEndian h]

theorem length_put_word (width n : Nat) : ((word width).put n).length = width :=
  length_littleEndian width n

theorem Exact.viaMap {w : Wire α} {forth : β → α} {back : α → β} {b : β}
    (h : w.Exact (forth b)) (hback : back (forth b) = b) : (w.viaMap forth back).Exact b := by
  intro rest
  show (w.get (w.put (forth b) ++ rest)).map _ = _
  rw [h rest]
  show Except.ok (back (forth b), rest) = _
  rw [hback]

theorem Fixed.viaMap {w : Wire α} {width : Nat} (h : w.Fixed width) {forth : β → α}
    {back : α → β} (hback : ∀ b, back (forth b) = b) : (w.viaMap forth back).Fixed width where
  length_put b := h.length_put (forth b)
  exact b := (h.exact (forth b)).viaMap (hback b)

theorem fixed_u8 : u8.Fixed 1 where
  length_put a := length_put_word 1 a.toNat
  exact a := (exact_word a.toNat_lt).viaMap UInt8.ofNat_toNat

theorem fixed_u32 : u32.Fixed 4 where
  length_put a := length_put_word 4 a.toNat
  exact a := (exact_word a.toNat_lt).viaMap UInt32.ofNat_toNat

theorem fixed_u64 : u64.Fixed 8 where
  length_put a := length_put_word 8 a.toNat
  exact a := (exact_word a.toNat_lt).viaMap UInt64.ofNat_toNat

theorem fixed_i32 : i32.Fixed 4 := fixed_u32.viaMap fun _ => rfl

theorem fixed_single : single.Fixed 4 := fixed_u32.viaMap fun _ => rfl

theorem fixed_flag : flag.Fixed 1 where
  length_put _ := rfl
  exact b := by
    intro rest
    cases b <;> rfl

/-! ## Several parts -/

theorem except_ok_bind {ε : Type} (a : α) (f : α → Except ε β) : (Except.ok a >>= f) = f a := rfl

theorem exact_block {bytes : List UInt8} (h : bytes.length < sizeLimit) : block.Exact bytes := by
  intro rest
  show ((word 8).get ((word 8).put bytes.length ++ bytes ++ rest) >>= _) = _
  rw [List.append_assoc, exact_word h, except_ok_bind]
  exact takeBytes_append bytes rest

theorem length_put_block (bytes : List UInt8) : (block.put bytes).length = 8 + bytes.length := by
  show ((word 8).put bytes.length ++ bytes).length = _
  rw [List.length_append, length_put_word]

theorem put_block_ne_nil (bytes : List UInt8) : block.put bytes ≠ [] := by
  rw [← List.length_pos_iff, length_put_block]
  omega

theorem exact_text {s : String} (h : (Text.Utf8.encode s).length < sizeLimit) : text.Exact s := by
  intro rest
  show (block.get (block.put (Text.Utf8.encode s) ++ rest) >>= _) = _
  rw [exact_block h, except_ok_bind]
  simp only [Text.Utf8.decode_encode]

theorem faithful_text : text.Faithful := by
  intro s h
  have hblock : (block.put (Text.Utf8.encode s)).length < sizeLimit := h
  rw [length_put_block] at hblock
  exact exact_text (by omega)

theorem Exact.pair {v : Wire α} {w : Wire β} {a : α} {b : β} (ha : v.Exact a) (hb : w.Exact b) :
    (pair v w).Exact (a, b) := by
  intro rest
  show (v.get (v.put a ++ w.put b ++ rest) >>= _) = _
  rw [List.append_assoc, ha, except_ok_bind]
  show (w.get (w.put b ++ rest) >>= _) = _
  rw [hb, except_ok_bind]
  rfl

theorem Faithful.pair {v : Wire α} {w : Wire β} (hv : v.Faithful) (hw : w.Faithful) :
    (pair v w).Faithful := by
  rintro ⟨a, b⟩ h
  have hlength : ((Wire.pair v w).put (a, b)).length = (v.put a).length + (w.put b).length :=
    List.length_append
  exact (hv a (by omega)).pair (hw b (by omega))

theorem Fixed.pair {v : Wire α} {w : Wire β} {m n : Nat} (hv : v.Fixed m) (hw : w.Fixed n) :
    (pair v w).Fixed (m + n) where
  length_put p := by
    rw [← hv.length_put p.1, ← hw.length_put p.2]
    exact List.length_append
  exact p := (hv.exact p.1).pair (hw.exact p.2)

theorem Exact.optional {w : Wire α} {a : Option α} (h : ∀ x, a = some x → w.Exact x) :
    (optional w).Exact a := by
  intro rest
  cases a with
  | none => rfl
  | some x =>
      show (w.get (w.put x ++ rest)).map _ = _
      rw [h x rfl]
      rfl

theorem Fixed.optional {w : Wire α} {n : Nat} (h : w.Fixed n) (a : Option α) :
    (optional w).Exact a :=
  Exact.optional fun x _ => h.exact x

theorem Faithful.viaMap {w : Wire α} (h : w.Faithful) {forth : β → α} {back : α → β}
    (hback : ∀ b, back (forth b) = b) : (w.viaMap forth back).Faithful :=
  fun b hb => (h (forth b) hb).viaMap (hback b)

/-- Values in a row come back one after the other. -/
theorem getMany_flatMap {w : Wire α} {as : List α} (h : ∀ a ∈ as, w.Exact a) (done : List α)
    (rest : List UInt8) :
    w.getMany done as.length (as.flatMap w.put ++ rest) = .ok (done.reverse ++ as, rest) := by
  induction as generalizing done with
  | nil => simp [getMany]
  | cons a as ih =>
      rw [List.length_cons, List.flatMap_cons, List.append_assoc, getMany, h a (by simp)]
      simp only
      rw [ih (fun x hx => h x (by simp [hx]))]
      simp

theorem length_le_flatMap {put : α → List UInt8} (hput : ∀ a, 0 < (put a).length) (as : List α) :
    as.length ≤ (as.flatMap put).length := by
  induction as with
  | nil => exact Nat.le_refl _
  | cons a as ih =>
      rw [List.length_cons, List.flatMap_cons, List.length_append]
      have hpos := hput a
      omega

theorem length_le_of_mem (put : α → List UInt8) {as : List α} {a : α} (h : a ∈ as) :
    (put a).length ≤ (as.flatMap put).length := by
  obtain ⟨front, back, rfl⟩ := List.append_of_mem h
  simp only [List.flatMap_append, List.flatMap_cons, List.length_append]
  omega

theorem Fixed.length_flatMap {w : Wire α} {width : Nat} (h : w.Fixed width) (as : List α) :
    (as.flatMap w.put).length = as.length * width := by
  induction as with
  | nil => simp
  | cons a as ih =>
      rw [List.flatMap_cons, List.length_append, h.length_put, ih, List.length_cons, Nat.succ_mul]
      omega

theorem Exact.list {w : Wire α} {as : List α} (hcount : as.length < sizeLimit)
    (h : ∀ a ∈ as, w.Exact a) : (list w).Exact as := by
  intro rest
  show ((word 8).get ((word 8).put as.length ++ as.flatMap w.put ++ rest) >>= _) = _
  rw [List.append_assoc, exact_word hcount, except_ok_bind]
  exact getMany_flatMap h [] rest

theorem Fixed.list {w : Wire α} {width : Nat} (h : w.Fixed width) (hwidth : 0 < width) :
    (list w).Faithful := by
  intro as hsize
  have hbytes : ((Wire.list w).put as).length = 8 + (as.flatMap w.put).length := by
    show ((word 8).put as.length ++ as.flatMap w.put).length = _
    rw [List.length_append, length_put_word]
  have hcount : as.length < sizeLimit := by
    have hle := length_le_flatMap (h.length_pos hwidth) as
    omega
  exact Exact.list hcount fun a _ => h.exact a

end Wire

end Patchbay.Bytes
