import Patchbay.Proofs.Buffers
/-!
What a failed read leaves behind.

A value is decoded from a copy of the unread bytes and bytes are counted
before they are taken, so either read moves the position only when it
succeeds (`Restores`).  A block is two such reads.  When the first succeeds
and the second fails, the length has been read and stays so: the position
is eight bytes further than before, and what is read next is what there is
of the contents.  Decoding the same bytes in one step (`Wire.block`) gives
the same blocks and takes its failures back, so nothing but the failure
depends on there being two steps.
-/

namespace Patchbay.Bytes

/-! ## The length of a block -/

namespace Wire

theorem word_get_eq_error_iff {width : Nat} {bs : List UInt8} {e : WireError} :
    (word width).get bs = .error e ↔ bs.length < width ∧ e = .ended := by
  unfold word takeBytes
  by_cases hwidth : (bs.take width).length = width
  · simp only [if_pos hwidth]
    rw [List.length_take] at hwidth
    exact iff_of_false nofun fun h => by omega
  · simp only [if_neg hwidth]
    rw [List.length_take] at hwidth
    have hshort : bs.length < width := by omega
    simp [Except.map, hshort, eq_comm]

theorem viaMap_get_eq_error_iff {α β : Type} {w : Wire α} {forth : β → α} {back : α → β}
    {bs : List UInt8} {e : WireError} :
    (w.viaMap forth back).get bs = .error e ↔ w.get bs = .error e := by
  unfold viaMap
  dsimp only
  cases w.get bs with
  | ok r => exact iff_of_false nofun nofun
  | error cause => simp [Except.map]

theorem u64_get_eq_error_iff {bs : List UInt8} {e : WireError} :
    u64.get bs = .error e ↔ bs.length < 8 ∧ e = .ended :=
  viaMap_get_eq_error_iff.trans word_get_eq_error_iff

end Wire

namespace Buffer

variable {b b' : Buffer} {e : BufferError}

/-! ## One step -/

/-- A failure leaves the buffer as it was. -/
def Restores {α : Type} (r : Reader α) : Prop := ∀ b e b', r b = .error e b' → b' = b

theorem get_eq_error_iff {α : Type} {w : Wire α} :
    get w b = .error e b' ↔ b' = b ∧ ∃ cause, e = .wire cause ∧ w.get b.unread = .error cause := by
  unfold get
  cases w.get b.unread with
  | ok r => exact iff_of_false nofun fun ⟨_, _, _, h⟩ => nomatch h
  | error cause => simp [eq_comm, and_comm]

theorem take_eq_error_iff {n : Nat} :
    take n b = .error e b' ↔ b' = b ∧ b.remaining < n ∧ e = .tooShort n b.remaining := by
  unfold take
  by_cases hshort : b.remaining < n
  · simp [hshort, eq_comm, and_comm]
  · simp [hshort]

theorem restores_get {α : Type} (w : Wire α) : Restores (get w) :=
  fun _ _ _ h => (get_eq_error_iff.mp h).1

theorem restores_take (n : Nat) : Restores (take n) :=
  fun _ _ _ h => (take_eq_error_iff.mp h).1

/-! ## Two steps -/

theorem short_or_counted (b : Buffer) :
    b.remaining < 8 ∨ ∃ n rest, b.unread = Wire.u64.put n ++ rest := by
  cases hget : Wire.u64.get b.unread with
  | error cause =>
      rw [← length_unread]
      exact .inl (Wire.u64_get_eq_error_iff.mp hget).1
  | ok r => exact .inr ⟨r.1, r.2, (Wire.complete_u64.written hget).2⟩

theorem getBlock_of_short (h : b.remaining < 8) : getBlock b = .error (.wire .ended) b := by
  rw [← length_unread] at h
  have hget : get Wire.u64 b = .error (.wire .ended) b :=
    get_eq_error_iff.mpr ⟨rfl, _, rfl, Wire.u64_get_eq_error_iff.mpr ⟨h, rfl⟩⟩
  simp only [getBlock, Bind.bind, EStateM.bind, hget]

/-- A failed read leaves the buffer as it was, with one exception: of a block that is cut short the
length has been read, and the position stays behind it. -/
theorem after_failed_read :
    (∀ {α : Type} (w : Wire α), get w b = .error e b' → b' = b) ∧
      (∀ n, take n b = .error e b' → b' = b) ∧
      (getBlock b = .error e b' → b'.bytes = b.bytes ∧
        b'.position = if 8 ≤ b.remaining then b.position + 8 else b.position) := by
  refine ⟨fun w => restores_get w b e b', fun n => restores_take n b e b', fun h => ?_⟩
  rcases b.short_or_counted with hshort | ⟨n, rest, hb⟩
  · rw [getBlock_of_short hshort] at h
    cases h
    rw [if_neg (Nat.not_le_of_lt hshort)]
    exact ⟨rfl, rfl⟩
  · rw [getBlock_of_counted hb] at h
    -- The bytes are missing, not the length: the second read restores what the first has left.
    obtain rfl := restores_take _ _ _ _ h
    have hlength := congrArg List.length hb
    rw [length_unread, List.length_append, Wire.fixed_u64.length_put] at hlength
    rw [if_pos (by omega), position_leaving hb, Wire.fixed_u64.length_put]
    exact ⟨rfl, rfl⟩

/-- A block of five bytes of which there is one. -/
def cutShort : Buffer := ofBytes [5, 0, 0, 0, 0, 0, 0, 0, 0xaa]

theorem after_failed_read_of_cutShort :
    ∃ b', getBlock cutShort = .error (.tooShort 5 1) b' ∧ b'.bytes = cutShort.bytes ∧
      b'.position = 8 := by
  have h : getBlock cutShort = .error (.tooShort 5 1) (cutShort.leaving 1) := rfl
  have hafter := after_failed_read.2.2 h
  exact ⟨_, h, hafter.1, hafter.2⟩

/-- The buffer is not as it was, so the block that lacks bytes is not read when these have been
added. -/
theorem getBlock_does_not_restore :
    ¬Restores getBlock ∧
      ∃ b', getBlock cutShort = .error (.tooShort 5 1) b' ∧ b' ≠ cutShort ∧
        (∃ c, getBlock (cutShort.putBytes [1, 2, 3, 4]) = .ok [0xaa, 1, 2, 3, 4] c) ∧
        ∀ c, getBlock (b'.putBytes [1, 2, 3, 4]) ≠ .ok [0xaa, 1, 2, 3, 4] c := by
  have hfailed : getBlock cutShort = .error (.tooShort 5 1) (cutShort.leaving 1) := rfl
  have hmoved : cutShort.leaving 1 ≠ cutShort := by decide
  refine ⟨fun h => hmoved (h _ _ _ hfailed), cutShort.leaving 1, hfailed, hmoved, ⟨_, rfl⟩, ?_⟩
  exact fun c h => nomatch h

end Buffer

end Patchbay.Bytes
