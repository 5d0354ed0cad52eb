import Patchbay.Text.Utf8
/-!
Texts come back from their bytes, and bytes from their texts.

Each of the four lengths of a sequence has a range of code points.  Within
its range the first byte announces the length, the bytes behind it pass the
tests that shut out overlong forms and surrogates, and the bits they carry
add up to the code point.  The same tests keep a sequence that is read inside
the range of its length, so the code point is written in the same bytes.
-/

namespace Patchbay.Text.Utf8

/-! ## The classes of bytes as ranges -/

theorem announced_eq (b : UInt8) :
    announced b =
      if b.toNat < 128 then 1
      else if 194 ≤ b.toNat ∧ b.toNat ≤ 223 then 2
      else if 224 ≤ b.toNat ∧ b.toNat ≤ 239 then 3
      else if 240 ≤ b.toNat ∧ b.toNat ≤ 244 then 4
      else 0 := by
  simp [announced, UInt8.lt_iff_toNat_lt, UInt8.le_iff_toNat_le]

theorem isContinuation_iff (b : UInt8) :
    isContinuation b = true ↔ 128 ≤ b.toNat ∧ b.toNat ≤ 191 := by
  simp [isContinuation, UInt8.le_iff_toNat_le]

theorem isSecond_iff (a b : UInt8) :
    isSecond a b = true ↔
      128 ≤ b.toNat ∧ b.toNat ≤ 191 ∧ (a.toNat = 224 → 160 ≤ b.toNat) ∧
        (a.toNat = 237 → b.toNat ≤ 159) ∧ (a.toNat = 240 → 144 ≤ b.toNat) ∧
          (a.toNat = 244 → b.toNat ≤ 143) := by
  have heq : ∀ c : UInt8, (a == c) = decide (a.toNat = c.toNat) := by
    intro c
    rw [Bool.eq_iff_iff]
    simp [UInt8.toNat_inj]
  unfold isSecond
  simp only [heq, isContinuation, UInt8.le_iff_toNat_le]
  simp
  grind

theorem toNat_byte {n : Nat} (h : n < 256) : (UInt8.ofNat n).toNat = n := by
  simpa using h

/-! ## One character -/

section Sequence
variable {rest : List UInt8} {p : Nat}

theorem readTail_one {a : UInt8} (ha : a.toNat < 128) (hp : a.toNat = p) :
    readTail a rest = .ok (p, 0) := by
  have hannounced : announced a = 1 := by rw [announced_eq, if_pos ha]
  simp [readTail, hannounced, hp]

theorem readTail_two {a b : UInt8} (ha : 194 ≤ a.toNat ∧ a.toNat ≤ 223)
    (hb : isSecond a b = true) (hp : a.toNat % 32 * 64 + b.toNat % 64 = p) :
    readTail a (b :: rest) = .ok (p, 1) := by
  have hannounced : announced a = 2 := by
    rw [announced_eq, if_neg (by omega), if_pos ha]
  simp [readTail, hannounced, hb, payload, hp]

theorem readTail_three {a b c : UInt8} (ha : 224 ≤ a.toNat ∧ a.toNat ≤ 239)
    (hb : isSecond a b = true) (hc : isContinuation c = true)
    (hp : a.toNat % 16 * 4096 + b.toNat % 64 * 64 + c.toNat % 64 = p) :
    readTail a (b :: c :: rest) = .ok (p, 2) := by
  have hannounced : announced a = 3 := by
    rw [announced_eq, if_neg (by omega), if_neg (by omega), if_pos ha]
  simp [readTail, hannounced, hb, hc, payload, hp]

theorem readTail_four {a b c d : UInt8} (ha : 240 ≤ a.toNat ∧ a.toNat ≤ 244)
    (hb : isSecond a b = true) (hc : isContinuation c = true) (hd : isContinuation d = true)
    (hp : a.toNat % 8 * 262144 + b.toNat % 64 * 4096 + c.toNat % 64 * 64 + d.toNat % 64 = p) :
    readTail a (b :: c :: d :: rest) = .ok (p, 3) := by
  have hannounced : announced a = 4 := by
    rw [announced_eq, if_neg (by omega), if_neg (by omega), if_neg (by omega), if_pos ha]
  simp [readTail, hannounced, hb, hc, hd, payload, hp]

end Sequence

/-- A character is read back from its bytes, whatever follows them. -/
theorem readTail_encodeChar (c : Char) (rest : List UInt8) :
    ∃ first tail, encodeChar c = first :: tail ∧
      readTail first (tail ++ rest) = .ok (c.toNat, tail.length) := by
  have hvalid : c.toNat < 0xd800 ∨ 0xdfff < c.toNat ∧ c.toNat < 0x110000 := c.valid
  unfold encodeChar
  simp only
  by_cases h₁ : c.toNat < 0x80
  · rw [if_pos h₁]
    have ha := toNat_byte (n := c.toNat) (by omega)
    exact ⟨_, [], rfl, readTail_one (by omega) ha⟩
  rw [if_neg h₁]
  by_cases h₂ : c.toNat < 0x800
  · rw [if_pos h₂]
    have ha := toNat_byte (n := 0xc0 + c.toNat / 64) (by omega)
    have hb := toNat_byte (n := 0x80 + c.toNat % 64) (by omega)
    exact ⟨_, [_], rfl, readTail_two (by omega) ((isSecond_iff _ _).mpr (by omega)) (by omega)⟩
  rw [if_neg h₂]
  by_cases h₃ : c.toNat < 0x10000
  · rw [if_pos h₃]
    have ha := toNat_byte (n := 0xe0 + c.toNat / 4096) (by omega)
    have hb := toNat_byte (n := 0x80 + c.toNat / 64 % 64) (by omega)
    have hc := toNat_byte (n := 0x80 + c.toNat % 64) (by omega)
    exact ⟨_, [_, _], rfl, readTail_three (by omega) ((isSecond_iff _ _).mpr (by omega))
      ((isContinuation_iff _).mpr (by omega)) (by omega)⟩
  · rw [if_neg h₃]
    have ha := toNat_byte (n := 0xf0 + c.toNat / 262144) (by omega)
    have hb := toNat_byte (n := 0x80 + c.toNat / 4096 % 64) (by omega)
    have hc := toNat_byte (n := 0x80 + c.toNat / 64 % 64) (by omega)
    have hd := toNat_byte (n := 0x80 + c.toNat % 64) (by omega)
    exact ⟨_, [_, _, _], rfl, readTail_four (by omega) ((isSecond_iff _ _).mpr (by omega))
      ((isContinuation_iff _).mpr (by omega)) ((isContinuation_iff _).mpr (by omega)) (by omega)⟩

/-! ## Texts -/

theorem decodeFrom_cons (index : Nat) (done : List Char) (first : UInt8) (rest : List UInt8) :
    decodeFrom index done (first :: rest) =
      match readTail first rest with
      | .ok (n, k) => decodeFrom (index + 1 + k) (Char.ofNat n :: done) (rest.drop k)
      | .error f => .error (f.at index) := by
  cases h : readTail first rest <;> simp only [decodeFrom, h]

theorem decodeFrom_encode (cs : List Char) (index : Nat) (done : List Char) :
    decodeFrom index done (cs.flatMap encodeChar) = .ok (done.reverse ++ cs) := by
  induction cs generalizing index done with
  | nil => simp [decodeFrom]
  | cons c cs ih =>
      obtain ⟨first, tail, hbytes, hread⟩ := readTail_encodeChar c (cs.flatMap encodeChar)
      rw [List.flatMap_cons, hbytes, List.cons_append, decodeFrom_cons, hread]
      simp only [List.drop_left, Char.ofNat_toNat]
      rw [ih]
      simp

theorem decode_encode (s : String) : decode (encode s) = .ok s := by
  unfold decode encode
  rw [decodeFrom_encode]
  simp [Except.map]

/-! ## One sequence that is read -/

/-- A byte is the one that its number makes. -/
theorem ofNat_eq_byte {n : Nat} {b : UInt8} (h : n = b.toNat) : UInt8.ofNat n = b := by
  rw [h, UInt8.ofNat_toNat]

theorem toNat_ofNat {n : Nat} (h : n < 0xd800 ∨ 0xdfff < n ∧ n < 0x110000) :
    (Char.ofNat n).toNat = n := by
  have hvalid : n.isValidChar := h
  rw [Char.ofNat, dif_pos hvalid]
  rfl

section Sequence
variable {a b c d : UInt8}

theorem encodeChar_one (ha : a.toNat < 128) : encodeChar (Char.ofNat a.toNat) = [a] := by
  have hn := toNat_ofNat (n := a.toNat) (by omega)
  unfold encodeChar
  simp only [hn]
  rw [if_pos ha, UInt8.ofNat_toNat]

theorem encodeChar_two (ha : 194 ≤ a.toNat ∧ a.toNat ≤ 223) (hb : isSecond a b = true) :
    encodeChar (Char.ofNat (a.toNat % 32 * 64 + payload b)) = [a, b] := by
  rw [isSecond_iff] at hb
  have hn := toNat_ofNat (n := a.toNat % 32 * 64 + payload b) (by unfold payload; omega)
  unfold encodeChar
  simp only [hn]
  unfold payload
  rw [if_neg (by omega), if_pos (by omega), ofNat_eq_byte (b := a) (by omega),
    ofNat_eq_byte (b := b) (by omega)]

theorem encodeChar_three (ha : 224 ≤ a.toNat ∧ a.toNat ≤ 239) (hb : isSecond a b = true)
    (hc : isContinuation c = true) :
    encodeChar (Char.ofNat (a.toNat % 16 * 4096 + payload b * 64 + payload c)) = [a, b, c] := by
  rw [isSecond_iff] at hb
  rw [isContinuation_iff] at hc
  have hn := toNat_ofNat (n := a.toNat % 16 * 4096 + payload b * 64 + payload c)
    (by unfold payload; omega)
  unfold encodeChar
  simp only [hn]
  unfold payload
  rw [if_neg (by omega), if_neg (by omega), if_pos (by omega), ofNat_eq_byte (b := a) (by omega),
    ofNat_eq_byte (b := b) (by omega), ofNat_eq_byte (b := c) (by omega)]

theorem encodeChar_four (ha : 240 ≤ a.toNat ∧ a.toNat ≤ 244) (hb : isSecond a b = true)
    (hc : isContinuation c = true) (hd : isContinuation d = true) :
    encodeChar (Char.ofNat (a.toNat % 8 * 262144 + payload b * 4096 + payload c * 64 + payload d)) =
      [a, b, c, d] := by
  rw [isSecond_iff] at hb
  rw [isContinuation_iff] at hc hd
  have hn := toNat_ofNat
    (n := a.toNat % 8 * 262144 + payload b * 4096 + payload c * 64 + payload d)
    (by unfold payload; omega)
  unfold encodeChar
  simp only [hn]
  unfold payload
  rw [if_neg (by omega), if_neg (by omega), if_neg (by omega), ofNat_eq_byte (b := a) (by omega),
    ofNat_eq_byte (b := b) (by omega), ofNat_eq_byte (b := c) (by omega),
    ofNat_eq_byte (b := d) (by omega)]

end Sequence

/-- What a first byte announces, as a range for each length. -/
theorem range_of_announced (a : UInt8) :
    (announced a = 1 → a.toNat < 128) ∧ (announced a = 2 → 194 ≤ a.toNat ∧ a.toNat ≤ 223) ∧
      (announced a = 3 → 224 ≤ a.toNat ∧ a.toNat ≤ 239) ∧
        (announced a = 4 → 240 ≤ a.toNat ∧ a.toNat ≤ 244) := by
  rw [announced_eq]
  grind

/-- The bytes of a character that is read are those that it is written in. -/
theorem encodeChar_of_readTail {first : UInt8} {rest : List UInt8} {n k : Nat}
    (h : readTail first rest = .ok (n, k)) : encodeChar (Char.ofNat n) = first :: rest.take k := by
  obtain ⟨hone, htwo, hthree, hfour⟩ := range_of_announced first
  unfold readTail at h
  repeat' split at h
  all_goals cases h
  · next ha => exact encodeChar_one (hone ha)
  · next ha hb => exact encodeChar_two (htwo ha) hb
  · next ha hb _ _ _ hc => exact encodeChar_three (hthree ha) hb hc
  · next ha hb _ _ hc _ _ _ hd => exact encodeChar_four (hfour ha) hb hc hd

theorem encode_decodeFrom {index : Nat} {done cs : List Char} {bytes : List UInt8}
    (h : decodeFrom index done bytes = .ok cs) :
    ∃ read, cs = done.reverse ++ read ∧ read.flatMap encodeChar = bytes := by
  fun_induction decodeFrom index done bytes with
  | case1 index done =>
      cases h
      exact ⟨[], (List.append_nil _).symm, rfl⟩
  | case2 index done first rest n k hread ih =>
      obtain ⟨read, hcs, hbytes⟩ := ih h
      refine ⟨Char.ofNat n :: read, ?_, ?_⟩
      · rw [hcs, List.reverse_cons, List.append_assoc]
        rfl
      · rw [List.flatMap_cons, hbytes, encodeChar_of_readTail hread, List.cons_append,
          List.take_append_drop]
  | case3 index done first rest f hread => exact nomatch h

/-- A text that is read is written in the same bytes: there is no second way to write it. -/
theorem encode_of_decode {bytes : List UInt8} {s : String} (h : decode bytes = .ok s) :
    encode s = bytes := by
  unfold decode at h
  cases hread : decodeFrom 0 [] bytes with
  | error f =>
      rw [hread] at h
      exact nomatch h
  | ok cs =>
      rw [hread] at h
      cases h
      obtain ⟨read, hcs, hbytes⟩ := encode_decodeFrom hread
      rw [encode, String.toList_ofList, hcs]
      exact hbytes

end Patchbay.Text.Utf8
