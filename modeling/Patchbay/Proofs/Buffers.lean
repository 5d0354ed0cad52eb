import Patchbay.Bytes.Buffer
import Patchbay.Proofs.Canonicity
/-!
What stands at the front of a buffer is read from it.

Only the unread bytes matter to a reader.  When these start with the bytes
of a value, the reader of its type gives the value and leaves the bytes that
follow, and the same holds of bytes that are taken as they are and of a
block, which is read in two steps.  Of a canonical wire, and of bytes that
are taken, nothing else is read.
-/

namespace Patchbay.Bytes.Buffer

variable {b : Buffer} {x rest : List UInt8}

/-! ## The unread bytes -/

theorem length_unread (b : Buffer) : b.unread.length = b.remaining := List.length_drop

theorem position_add_unread (b : Buffer) : b.position + b.unread.length = b.bytes.length := by
  have hposition := b.position_le
  rw [length_unread, remaining]
  omega

theorem position_leaving (h : b.unread = x ++ rest) :
    (b.leaving rest.length).position = b.position + x.length := by
  have hlength := b.position_add_unread
  rw [h, List.length_append] at hlength
  show b.bytes.length - rest.length = b.position + x.length
  omega

theorem unread_leaving (h : b.unread = x ++ rest) : (b.leaving rest.length).unread = rest := by
  show b.bytes.drop (b.leaving rest.length).position = rest
  rw [position_leaving h, ← List.drop_drop]
  show b.unread.drop x.length = rest
  rw [h, List.drop_left]

theorem unread_ofBytes (bytes : List UInt8) : (ofBytes bytes).unread = bytes := rfl

/-- What is written stands behind the bytes that have not been read. -/
theorem unread_putBytes (b : Buffer) (bytes : List UInt8) :
    (b.putBytes bytes).unread = b.unread ++ bytes :=
  List.drop_append_of_le_length b.position_le

/-! ## Reading what has been written -/

theorem get_of_exact {α : Type} {w : Wire α} {a : α} (h : w.Exact a)
    (hb : b.unread = w.put a ++ rest) : get w b = .ok a (b.leaving rest.length) := by
  unfold get
  rw [hb, h rest]

theorem take_of_length {n : Nat} (h : x.length = n) (hb : b.unread = x ++ rest) :
    take n b = .ok x (b.leaving rest.length) := by
  have hremaining : b.remaining = n + rest.length := by
    rw [← length_unread, hb, List.length_append, h]
  unfold take
  rw [if_neg (by omega), hb, ← h, List.take_left]
  congr 2
  omega

theorem put_block (h : x.length < sizeLimit) :
    Wire.block.put x = Wire.u64.put (UInt64.ofNat x.length) ++ x := by
  have hcount : (UInt64.ofNat x.length).toNat = x.length := UInt64.toNat_ofNat_of_lt' h
  show (Wire.word 8).put x.length ++ x = (Wire.word 8).put (UInt64.ofNat x.length).toNat ++ x
  rw [hcount]

/-- Behind a length the bytes are taken that it announces. -/
theorem getBlock_of_counted {n : UInt64} (hb : b.unread = Wire.u64.put n ++ rest) :
    getBlock b = take n.toNat (b.leaving rest.length) := by
  have hcount := get_of_exact (Wire.fixed_u64.exact n) hb
  simp only [getBlock, Bind.bind, EStateM.bind, hcount]

theorem getBlock_of_length (h : x.length < sizeLimit)
    (hb : b.unread = Wire.block.put x ++ rest) : getBlock b = .ok x (b.leaving rest.length) := by
  rw [put_block h, List.append_assoc] at hb
  rw [getBlock_of_counted hb]
  exact take_of_length (UInt64.toNat_ofNat_of_lt' h).symm (unread_leaving hb)

/-! ## Reading nothing else -/

/-- The reader succeeds exactly in front of the bytes that `put` writes of a value that satisfies `D`;
it gives the value and leaves the bytes that follow. -/
def Decodes {α : Type} (r : Reader α) (D : α → Prop) (put : α → List UInt8) : Prop :=
  ∀ b a b', r b = .ok a b' ↔ D a ∧ ∃ rest, b.unread = put a ++ rest ∧ b' = b.leaving rest.length

theorem decodes_get {α : Type} {w : Wire α} {D : α → Prop} (hw : w.Canonical D) :
    Decodes (get w) D w.put := by
  intro b a b'
  constructor
  · intro h
    unfold get at h
    split at h
    · next a' rest hget =>
        cases h
        obtain ⟨ha, hb⟩ := hw.written hget
        exact ⟨ha, rest, hb, rfl⟩
    · exact nomatch h
  · rintro ⟨ha, rest, hb, rfl⟩
    exact get_of_exact (hw.exact a ha) hb

theorem decodes_take (n : Nat) : Decodes (take n) (·.length = n) fun x => x := by
  intro b x b'
  constructor
  · intro h
    unfold take at h
    split at h
    · exact nomatch h
    · next henough =>
        cases h
        rw [← length_unread, Nat.not_lt] at henough
        refine ⟨List.length_take_of_le henough, b.unread.drop n, ?_, ?_⟩
        · exact (List.take_append_drop n b.unread).symm
        · rw [List.length_drop, length_unread]
  · rintro ⟨hx, rest, hb, rfl⟩
    exact take_of_length hx hb

theorem decodes_getBlock : Decodes getBlock (·.length < sizeLimit) Wire.block.put := by
  intro b x b'
  constructor
  · intro h
    unfold getBlock at h
    simp only [Bind.bind, EStateM.bind] at h
    split at h
    · next n b₁ hcount =>
        obtain ⟨-, rest₁, hb, rfl⟩ := (decodes_get Wire.complete_u64 _ _ _).mp hcount
        obtain ⟨hx, rest, hb₁, rfl⟩ := (decodes_take _ _ _ _).mp h
        rw [unread_leaving hb] at hb₁
        have hlength : x.length < sizeLimit := hx ▸ n.toNat_lt
        refine ⟨hlength, rest, ?_, rfl⟩
        rw [put_block hlength, hx, UInt64.ofNat_toNat, hb, hb₁, List.append_assoc]
    · exact nomatch h
  · rintro ⟨hx, rest, hb, rfl⟩
    exact getBlock_of_length hx hb

end Patchbay.Bytes.Buffer
