import Mathlib
import Patchbay.Number.Double
/-!
Widening is exact.

A 32-bit float that is not a NaN has a 64-bit float equal to it, and that is
what widening gives: two widened floats are equal as 64-bit floats exactly
when the 32-bit ones are equal (`Double.ofSingle_beq`).

In the first half words are naturals.  A magnitude of at most as many digits
as the format stores is not rounded, so the word of the wider float shows the
order of the number and its digits, from the first one on; both can be read
off it again.  In the second half the words become 64-bit floats.  A word that
is not a NaN is the word of the float that is made from it, so the comparison
of two floats is that of their words.
-/

namespace Patchbay.Number

/-! ## Exact magnitudes -/

theorem scaleTwo_eq (num den : Nat) (q : Int) :
    scaleTwo num den q = (num * 2 ^ q.toNat, den * 2 ^ (-q).toNat) := by
  cases q <;> simp [scaleTwo, twoPow]

theorem roundDivEven_mul (k : Nat) {d : Nat} (hd : 0 < d) : roundDivEven (k * d) d = k := by
  have hnothing : ¬(2 * 0 > d || 2 * 0 == d && k % 2 == 1) = true := by
    simp only [Bool.or_eq_true, Bool.and_eq_true, decide_eq_true_eq, beq_iff_eq]
    omega
  simp only [roundDivEven, Nat.mul_mod_left, Nat.mul_div_cancel k hd]
  exact if_neg hnothing

theorem log2_mul_two_pow {m : Nat} (hm : 0 < m) (k : Nat) : (m * 2 ^ k).log2 = m.log2 + k := by
  rw [Nat.log2_eq_iff (Nat.mul_pos hm (Nat.two_pow_pos k)).ne']
  obtain ⟨hlow, hhigh⟩ := (Nat.log2_eq_iff hm.ne').mp rfl
  constructor
  · rw [Nat.pow_add]
    exact Nat.mul_le_mul_right _ hlow
  · rw [Nat.add_right_comm, Nat.pow_add]
    exact Nat.mul_lt_mul_of_pos_right hhigh (Nat.two_pow_pos k)

/-- The digits of a number, moved so that the first one stands at a given place. -/
theorem digits_bounds {m : Nat} (hm : 0 < m) {n : Nat} (h : m.log2 ≤ n) :
    2 ^ n ≤ m * 2 ^ (n - m.log2) ∧ m * 2 ^ (n - m.log2) < 2 * 2 ^ n := by
  have hsplit : ∀ i, 2 ^ (m.log2 + i) * 2 ^ (n - m.log2) = 2 ^ (n + i) := by
    intro i
    rw [← Nat.pow_add]
    congr 1
    omega
  rw [← Nat.pow_succ', ← hsplit 1]
  refine ⟨?_, Nat.mul_lt_mul_of_pos_right Nat.lt_log2_self (Nat.two_pow_pos _)⟩
  exact (hsplit 0).symm.trans_le (Nat.mul_le_mul_right _ (Nat.log2_self_le hm.ne'))

theorem binaryOrder_scaleTwo {m : Nat} (hm : 0 < m) (q : Int) :
    binaryOrder (scaleTwo m 1 q).1 (scaleTwo m 1 q).2 = m.log2 + q := by
  have hone : Nat.log2 1 = 0 := by decide
  have hguess : ((m * 2 ^ q.toNat).log2 : Int) - (1 * 2 ^ (-q).toNat).log2 = m.log2 + q := by
    rw [log2_mul_two_pow hm, log2_mul_two_pow Nat.one_pos, hone]
    omega
  have hplace : (-q).toNat + (m.log2 + q).toNat =
      m.log2 + (q.toNat + (-(m.log2 + q)).toNat) := by
    omega
  simp only [binaryOrder, scaleTwo_eq, hguess]
  rw [if_neg]
  rw [Nat.not_lt, neg_neg, Nat.one_mul, Nat.mul_assoc, ← Nat.pow_add, ← Nat.pow_add, hplace,
    Nat.pow_add]
  exact Nat.mul_le_mul_right _ (Nat.log2_self_le hm.ne')

namespace Format

/-- A number in the normal range of a format with at most as many digits as the format has is not
rounded. -/
theorem nearestMagnitude_exact (fmt : Format) {m : Nat} (hm : 0 < m) {q : Int}
    (hdigits : m.log2 ≤ fmt.fraction) (hlow : 1 - (fmt.bias : Int) ≤ m.log2 + q)
    (hhigh : m.log2 + q ≤ fmt.bias) :
    fmt.nearestMagnitude (scaleTwo m 1 q).1 (scaleTwo m 1 q).2 =
      (m.log2 + q + fmt.bias - 1).toNat * 2 ^ fmt.fraction + m * 2 ^ (fmt.fraction - m.log2) := by
  set pair := scaleTwo (scaleTwo m 1 q).1 (scaleTwo m 1 q).2 (-(m.log2 + q - fmt.fraction))
    with hpair
  have hnum : (scaleTwo m 1 q).1 ≠ 0 := by
    rw [scaleTwo_eq]
    exact (Nat.mul_pos hm (Nat.two_pow_pos _)).ne'
  have hplace : max (m.log2 + q - fmt.fraction) fmt.leastExponent = m.log2 + q - fmt.fraction := by
    rw [leastExponent]
    omega
  have hexact : pair.1 = m * 2 ^ (fmt.fraction - m.log2) * pair.2 := by
    simp only [hpair, scaleTwo_eq, Nat.one_mul, Nat.mul_assoc, ← Nat.pow_add, neg_neg]
    congr 2
    omega
  have hpos : 0 < pair.2 := by
    simp only [hpair, scaleTwo_eq, Nat.one_mul]
    exact Nat.mul_pos (Nat.two_pow_pos _) (Nat.two_pow_pos _)
  have hbinade : (m.log2 + q - fmt.fraction - fmt.leastExponent).toNat =
      (m.log2 + q + fmt.bias - 1).toNat := by
    rw [leastExponent]
    omega
  have hbelow : ¬(m.log2 + q + fmt.bias - 1).toNat * 2 ^ fmt.fraction +
      m * 2 ^ (fmt.fraction - m.log2) ≥ fmt.infinity := by
    rw [infinity, topExponent, ge_iff_le, Nat.not_le]
    calc _ < (m.log2 + q + fmt.bias - 1).toNat * 2 ^ fmt.fraction + 2 * 2 ^ fmt.fraction :=
          Nat.add_lt_add_left (digits_bounds hm hdigits).2 _
      _ = ((m.log2 + q + fmt.bias - 1).toNat + 2) * 2 ^ fmt.fraction := by ring
      _ ≤ (2 * fmt.bias + 1) * 2 ^ fmt.fraction := Nat.mul_le_mul_right _ (by omega)
  simp only [nearestMagnitude, if_neg hnum, binaryOrder_scaleTwo hm, hplace, twoPow, ← hpair]
  rw [hexact, roundDivEven_mul _ hpos, hbinade]
  exact if_neg hbelow

/-! ## Widened words -/

/-- The word of the 64-bit float that is equal to a 32-bit one. -/
def widened (word : Nat) : Nat := binary64.encode (binary32.decode word)

theorem decode_binary32 (word : Nat) :
    binary32.decode word =
      let negative := word / 2 ^ 31 % 2 == 1
      let exponent : Nat := word / 2 ^ 23 % 256
      let stored := word % 2 ^ 23
      if exponent = 255 then if stored = 0 then .infinite negative else .nan
      else if exponent = 0 then .finite negative stored (-149)
      else .finite negative (2 ^ 23 + stored) (-149 + (exponent : Int) - 1) :=
  rfl

/-- A positive 32-bit float has at most 24 digits, and less only at the smallest exponent. -/
theorem decode_finite {k : Nat} (hpos : 0 < k) (hlt : k < 0x7f800000) :
    ∃ (m : Nat) (q : Int), binary32.decode k = .finite false m q ∧ 0 < m ∧ m < 2 ^ 24 ∧ -149 ≤ q ∧
      q ≤ 104 ∧ (q = -149 ∨ 2 ^ 23 ≤ m) ∧ (k : Int) = (q + 149) * 2 ^ 23 + m := by
  have hnegative : (k / 2 ^ 31 % 2 == 1) = false := by
    rw [Nat.div_eq_of_lt (by omega)]
    rfl
  simp only [decode_binary32, hnegative]
  rw [if_neg (by omega)]
  split
  · exact ⟨_, _, rfl, by omega, by omega, by omega, by omega, by omega, by omega⟩
  · exact ⟨_, _, rfl, by omega, by omega, by omega, by omega, by omega, by omega⟩

theorem widened_signed {n k : Nat} (hn : n < 2) (hk : k ≤ 0x7f800000) :
    widened (n * 2 ^ 31 + k) = n * 2 ^ 63 + widened k := by
  have hexponent : (n * 2 ^ 31 + k) / 2 ^ 23 % 256 = k / 2 ^ 23 % 256 := by omega
  have hstored : (n * 2 ^ 31 + k) % 2 ^ 23 = k % 2 ^ 23 := by omega
  have hsign : (n * 2 ^ 31 + k) / 2 ^ 31 % 2 = n := by omega
  have hunsigned : k / 2 ^ 31 % 2 = 0 := by omega
  have hweight : (if (n == 1) = true then binary64.signWeight else 0) = n * 2 ^ 63 := by
    rcases (by omega : n = 0 ∨ n = 1) with rfl | rfl <;> rfl
  have hnone : (if ((0 : Nat) == 1) = true then binary64.signWeight else 0) = 0 := rfl
  simp only [widened, decode_binary32, hexponent, hstored, hsign, hunsigned]
  split
  · rw [if_pos (by omega), if_pos (by omega)]
    simp only [encode, hweight, hnone, Nat.zero_add]
  · split <;> simp only [encode, nearest, hweight, hnone, Nat.zero_add]

/-- The word of a positive number: its order, and its digits from the first one on. -/
theorem widened_finite {k : Nat} (hpos : 0 < k) (hlt : k < 0x7f800000) :
    ∃ (m : Nat) (q : Int), 0 < m ∧ m.log2 ≤ 23 ∧ -149 ≤ q ∧ q ≤ 104 ∧ (q = -149 ∨ m.log2 = 23) ∧
      (k : Int) = (q + 149) * 2 ^ 23 + m ∧
      widened k = (m.log2 + q + 1022).toNat * 2 ^ 52 + m * 2 ^ (52 - m.log2) := by
  obtain ⟨m, q, hdecode, hm, hdigits, hlow, hhigh, hcanonical, hk⟩ := decode_finite hpos hlt
  have hlog : m.log2 ≤ 23 := Nat.le_of_lt_succ ((Nat.log2_lt hm.ne').mpr hdigits)
  refine ⟨m, q, hm, hlog, hlow, hhigh, hcanonical.imp_right fun h => ?_, hk, ?_⟩
  · exact Nat.le_antisymm hlog ((Nat.le_log2 hm.ne').mpr h)
  · have hexact := binary64.nearestMagnitude_exact hm (q := q) (by simp only [binary64]; omega)
      (by simp only [binary64]; omega) (by simp only [binary64]; omega)
    have horder : m.log2 + q + (binary64.bias : Int) - 1 = m.log2 + q + 1022 := by
      simp only [binary64]
      omega
    rw [widened, hdecode, encode]
    rw [horder] at hexact
    exact (congrArg (0 + ·) hexact).trans (Nat.zero_add _)

theorem widened_zero : widened 0 = 0 := rfl

theorem widened_infinity : widened 0x7f800000 = 2047 * 2 ^ 52 := rfl

theorem widened_bounds {k : Nat} (hpos : 0 < k) (hlt : k < 0x7f800000) :
    0 < widened k ∧ widened k < 2047 * 2 ^ 52 := by
  obtain ⟨m, q, hm, hlog, hlow, hhigh, -, -, hwide⟩ := widened_finite hpos hlt
  obtain ⟨hleast, hgreatest⟩ := digits_bounds hm (n := 52) (by omega)
  rw [hwide]
  omega

theorem widened_le {k : Nat} (hk : k ≤ 0x7f800000) : widened k ≤ 2047 * 2 ^ 52 := by
  rcases Nat.eq_zero_or_pos k with rfl | hpos
  · exact Nat.zero_le _
  · rcases Nat.lt_or_eq_of_le hk with hlt | rfl
    · exact (widened_bounds hpos hlt).2.le
    · exact widened_infinity.le

theorem widened_eq_zero {k : Nat} (hk : k ≤ 0x7f800000) : widened k = 0 ↔ k = 0 := by
  refine ⟨fun h => ?_, fun h => h ▸ widened_zero⟩
  rcases Nat.eq_zero_or_pos k with rfl | hpos
  · rfl
  · rcases Nat.lt_or_eq_of_le hk with hlt | rfl
    · exact absurd h (widened_bounds hpos hlt).1.ne'
    · exact absurd (widened_infinity.symm.trans h) (by decide)

theorem widened_eq_infinity {k : Nat} (hk : k ≤ 0x7f800000) :
    widened k = 2047 * 2 ^ 52 ↔ k = 0x7f800000 := by
  refine ⟨fun h => ?_, fun h => h ▸ widened_infinity⟩
  rcases Nat.eq_zero_or_pos k with rfl | hpos
  · exact absurd (widened_zero.symm.trans h) (by decide)
  · exact (Nat.lt_or_eq_of_le hk).resolve_left fun hlt => (widened_bounds hpos hlt).2.ne h

/-- Different numbers stay different. -/
theorem widened_injective {k l : Nat} (hk : k ≤ 0x7f800000) (hl : l ≤ 0x7f800000)
    (h : widened k = widened l) : k = l := by
  by_cases hkzero : k = 0
  · have := (widened_eq_zero hl).mp (h ▸ (widened_eq_zero hk).mpr hkzero)
    omega
  by_cases hktop : k = 0x7f800000
  · have := (widened_eq_infinity hl).mp (h ▸ (widened_eq_infinity hk).mpr hktop)
    omega
  have hlzero : l ≠ 0 := fun hl0 =>
    hkzero ((widened_eq_zero hk).mp (h ▸ (widened_eq_zero hl).mpr hl0))
  have hltop : l ≠ 0x7f800000 := fun hl1 =>
    hktop ((widened_eq_infinity hk).mp (h ▸ (widened_eq_infinity hl).mpr hl1))
  obtain ⟨m, q, hm, hlog, hlow, hhigh, hcanonical, hk, hwide⟩ :=
    widened_finite (k := k) (by omega) (by omega)
  obtain ⟨n, r, hn, hlog', hlow', hhigh', hcanonical', hl, hwide'⟩ :=
    widened_finite (k := l) (by omega) (by omega)
  obtain ⟨hleast, hgreatest⟩ := digits_bounds hm (n := 52) (by omega)
  obtain ⟨hleast', hgreatest'⟩ := digits_bounds hn (n := 52) (by omega)
  rw [hwide, hwide'] at h
  -- The order and the digits can be read off the word, and the digits start at one place only.
  have horder : m.log2 + q = n.log2 + r := by omega
  have hstart : m.log2 = n.log2 := by omega
  have hdigits : m * 2 ^ (52 - n.log2) = n * 2 ^ (52 - n.log2) := by
    rw [← hstart] at h ⊢
    omega
  have hmn : m = n := Nat.eq_of_mul_eq_mul_right (Nat.two_pow_pos _) hdigits
  omega

theorem widened_nan {word : Nat} (h : 0x7f800000 < word % 2 ^ 31) :
    widened word = binary64.quietNaN := by
  simp only [widened, decode_binary32]
  rw [if_pos (by omega), if_neg (by omega)]
  rfl

end Format

end Patchbay.Number

namespace Patchbay.Double

open Float.Model Float.Model.UnpackedFloat Number

/-! ## Words that are not NaNs -/

/-- A word that is not a NaN: at the highest exponent it has no fraction. -/
def Numeric (word : Nat) : Prop :=
  word / 2 ^ 52 % 2 ^ 11 = 2 ^ 11 - 1 → word % 2 ^ 52 = 0

theorem valid_of_numeric {b : BitVec Format.binary64.numBits} (h : Numeric b.toNat) :
    Format.binary64.Valid b where
  eq_packedNaN htop hfraction := by
    have hexponent : (unpackExponent b).toNat = b.toNat / 2 ^ 52 % 2 ^ 11 := by
      rw [unpackExponent_def, BitVec.extractLsb'_toNat, Nat.shiftRight_eq_div_pow]
    have hmantissa : (unpackMantissa b).toNat = b.toNat % 2 ^ 52 := by
      rw [unpackMantissa_def, BitVec.extractLsb'_toNat, Nat.shiftRight_zero]
    rw [htop] at hexponent
    refine absurd (BitVec.eq_of_toNat_eq ?_) hfraction
    exact hmantissa.trans (h hexponent.symm)

/-- A word that is not a NaN is the word of the float that is made from it. -/
theorem toBits_ofBits {word : UInt64} (h : Numeric word.toNat) :
    (Float.ofBits word).toBits = word :=
  UInt64.toBitVec_inj.mp (pack_unpack_of_valid (valid_of_numeric h))

theorem ne_toBits_nan {word : UInt64} (h : Numeric word.toNat) : word ≠ Float.nan.toBits := by
  rintro rfl
  exact absurd (h rfl) (by decide)

/-- Two words that are not NaNs are equal as floats when they are the same, or both zero. -/
theorem beq_ofBits {a b : UInt64} (ha : Numeric a.toNat) (hb : Numeric b.toNat) :
    (Float.ofBits a == Float.ofBits b) = true ↔
      a = b ∨ a.toNat % 2 ^ 63 = 0 ∧ b.toNat % 2 ^ 63 = 0 := by
  have hzero : (0 : Float).toBits = 0 := rfl
  have hminus : (-0 : Float).toBits = 0x8000000000000000 := rfl
  rw [Float.beq_iff_ne_nan_and_eq]
  simp only [ne_eq, ← Float.toBits_inj, toBits_ofBits ha, toBits_ofBits hb, hzero, hminus,
    ne_toBits_nan ha, ne_toBits_nan hb, not_false_iff, true_and, ← UInt64.toNat_inj]
  have halt : a.toNat < 2 ^ 64 := a.toNat_lt
  have hblt : b.toNat < 2 ^ 64 := b.toNat_lt
  change a.toNat = b.toNat ∨ a.toNat = 0 ∧ b.toNat = 2 ^ 63 ∨ a.toNat = 2 ^ 63 ∧ b.toNat = 0 ↔ _
  omega

/-! ## Widened floats -/

theorem ofSingle_eq (x : Single) :
    ofSingle x = Float.ofBits (UInt64.ofNat (Format.widened x.bits.toNat)) :=
  rfl

theorem toNat_magnitude (x : Single) : x.magnitude.toNat = x.bits.toNat % 2 ^ 31 :=
  (UInt32.toNat_and _ _).trans (Nat.and_two_pow_sub_one_eq_mod _ 31)

theorem isNaN_iff (x : Single) : x.isNaN = true ↔ 0x7f800000 < x.bits.toNat % 2 ^ 31 := by
  rw [Single.isNaN, decide_eq_true_iff, UInt32.lt_iff_toNat_lt, toNat_magnitude]
  rfl

theorem isZero_iff (x : Single) : x.isZero = true ↔ x.bits.toNat % 2 ^ 31 = 0 := by
  rw [Single.isZero, beq_iff_eq, ← UInt32.toNat_inj, toNat_magnitude]
  rfl

theorem not_isZero_of_isNaN {x : Single} (h : x.isNaN = true) : ¬x.isZero = true := by
  rw [isNaN_iff] at h
  rw [isZero_iff]
  omega

theorem numeric_signed (n : Nat) {k : Nat} (hk : k ≤ 0x7f800000) :
    Numeric (n * 2 ^ 63 + Format.widened k) := by
  have hle := Format.widened_le hk
  unfold Numeric
  omega

/-- The word of a float that is not a NaN, widened: its sign, and its widened magnitude. -/
theorem exists_widened {x : Single} (h : x.isNaN = false) :
    ∃ n k : Nat, n < 2 ∧ k ≤ 0x7f800000 ∧ x.bits.toNat = n * 2 ^ 31 + k ∧
      (UInt64.ofNat (Format.widened x.bits.toNat)).toNat = n * 2 ^ 63 + Format.widened k := by
  have hbits : x.bits.toNat < 2 ^ 32 := x.bits.toNat_lt
  have hnumber : ¬0x7f800000 < x.bits.toNat % 2 ^ 31 := by
    rw [← isNaN_iff, h]
    exact Bool.noConfusion
  have hk : x.bits.toNat % 2 ^ 31 ≤ 0x7f800000 := Nat.not_lt.mp hnumber
  have hsplit : x.bits.toNat = x.bits.toNat / 2 ^ 31 * 2 ^ 31 + x.bits.toNat % 2 ^ 31 := by omega
  refine ⟨x.bits.toNat / 2 ^ 31, x.bits.toNat % 2 ^ 31, by omega, hk, hsplit, ?_⟩
  have hle := Format.widened_le hk
  have hsigned := Format.widened_signed (n := x.bits.toNat / 2 ^ 31) (by omega) hk
  rw [← hsplit] at hsigned
  rw [hsigned, UInt64.toNat_ofNat', Nat.mod_eq_of_lt (by omega)]

/-- A NaN stays one. -/
theorem ofSingle_of_isNaN {x : Single} (h : x.isNaN = true) : ofSingle x = Float.nan := by
  rw [ofSingle_eq, Format.widened_nan ((isNaN_iff x).mp h)]
  rfl

/-- Two widened floats are equal exactly when the 32-bit ones are. -/
theorem ofSingle_beq (x y : Single) : (ofSingle x == ofSingle y) = x.same y := by
  rw [Bool.eq_iff_iff]
  simp only [Single.same, Bool.or_eq_true, Bool.and_eq_true, beq_iff_eq, Bool.not_eq_true']
  by_cases hx : x.isNaN = true
  · rw [ofSingle_of_isNaN hx, Float.nan_beq_eq_false]
    simp [hx, not_isZero_of_isNaN hx]
  by_cases hy : y.isNaN = true
  · have hbits : x.bits ≠ y.bits := by
      intro hbits
      rw [isNaN_iff, ← hbits, ← isNaN_iff] at hy
      exact hx hy
    rw [ofSingle_of_isNaN hy, Float.beq_nan_eq_false]
    simp [hbits, not_isZero_of_isNaN hy]
  rw [Bool.not_eq_true] at hx hy
  obtain ⟨n, k, hn, hk, hxbits, hxword⟩ := exists_widened hx
  obtain ⟨m, l, hm, hl, hybits, hyword⟩ := exists_widened hy
  have hkwide := Format.widened_le hk
  have hlwide := Format.widened_le hl
  have hkzero := Format.widened_eq_zero hk
  have hlzero := Format.widened_eq_zero hl
  have hinjective := Format.widened_injective hk hl
  have hxnumeric : Numeric (UInt64.ofNat (Format.widened x.bits.toNat)).toNat :=
    hxword ▸ numeric_signed n hk
  have hynumeric : Numeric (UInt64.ofNat (Format.widened y.bits.toNat)).toNat :=
    hyword ▸ numeric_signed m hl
  rw [ofSingle_eq, ofSingle_eq, beq_ofBits hxnumeric hynumeric, ← UInt64.toNat_inj, hxword, hyword,
    ← UInt32.toNat_inj, isZero_iff, isZero_iff, hxbits, hybits]
  refine or_congr ⟨fun h => ⟨?_, hx⟩, fun h => ?_⟩ ?_
  · have hwide : Format.widened k = Format.widened l := by omega
    have hsign : n = m := by omega
    rw [hinjective hwide, hsign]
  · have hkl : k = l := by omega
    rw [hkl]
    omega
  · omega

end Patchbay.Double
