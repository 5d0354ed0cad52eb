import Mathlib.Algebra.Order.Field.Basic
import Mathlib.Data.Finset.Max
import Mathlib.Tactic.FieldSimp
import Mathlib.Tactic.Linarith
import Mathlib.Tactic.LinearCombination
import Mathlib.Tactic.Ring
import Patchbay.Spline.Cyclic
/-!
Cyclic systems are solved.

The arithmetic is exact here, and the rows are dominant: the neighbours have
positive coefficients that together stay below the one of the row itself.
Dominance does three things.  It keeps every pivot of the elimination
positive, because the coefficient that a row leaves to the next one stays
between zero and one; it survives the opening of the ring, which only makes
two diagonal entries larger; and it leaves the closed system without a
solution but zero when all right-hand sides are zero, which is what the
divisor of the correction needs.  If it were zero, the correction itself
would be such a solution.
-/

namespace Patchbay.Spline

/-! ## Entries -/

section Entries
variable {α : Type} [OfNat α 0]

/-- The entry of a list at a place; beyond the end it is zero. -/
def entry (xs : List α) (i : Nat) : α := xs[i]?.getD 0

@[simp] theorem entry_nil (i : Nat) : entry ([] : List α) i = 0 := rfl

@[simp] theorem entry_cons_zero (x : α) (xs : List α) : entry (x :: xs) 0 = x := rfl

@[simp] theorem entry_cons_succ (x : α) (xs : List α) (i : Nat) :
    entry (x :: xs) (i + 1) = entry xs i := rfl

theorem entry_of_getElem? {xs : List α} {i : Nat} {x : α} (h : xs[i]? = some x) :
    entry xs i = x := by
  rw [entry, h, Option.getD_some]

theorem entry_of_le {xs : List α} {i : Nat} (h : xs.length ≤ i) : entry xs i = 0 := by
  rw [entry, List.getElem?_eq_none h, Option.getD_none]

theorem getElem?_eq_entry {xs : List α} {i : Nat} (h : i < xs.length) :
    xs[i]? = some (entry xs i) := by
  rw [entry, List.getElem?_eq_getElem h, Option.getD_some]

theorem front_eq (xs : List α) : front xs = entry xs 0 := by
  rw [front, List.head?_eq_getElem?, entry]

theorem back_eq (xs : List α) : back xs = entry xs (xs.length - 1) := by
  rw [back, List.getLast?_eq_getElem?, entry]

end Entries

/-! ## Lengths -/

section Lengths
variable {α : Type} [Sub α] [Mul α] [Div α]

omit [Div α] in
theorem length_substitute (c d : α) (xs : List α) :
    (substitute c d xs).length = xs.length + 1 := by
  cases xs <;> rfl

theorem length_eliminate (c d : α) (rows : List (Row α)) :
    (eliminate c d rows).length = rows.length := by
  induction rows generalizing c d with
  | nil => rfl
  | cons row rows ih => rw [eliminate, length_substitute, ih, List.length_cons]

theorem length_solve (rows : List (Row α)) : (solve rows).length = rows.length := by
  cases rows with
  | nil => rfl
  | cons row rows => rw [solve, length_substitute, length_eliminate, List.length_cons]

theorem length_opened (shift alpha beta : α) (rows : List (Row α)) :
    (opened shift alpha beta rows).length = rows.length := by
  rw [opened, List.length_modify, List.length_modify]

omit [Sub α] [Mul α] [Div α] in
theorem length_correction [OfNat α 0] (shift alpha : α) (rows : List (Row α)) :
    (correction shift alpha rows).length = rows.length := by
  rw [correction, List.length_modify, List.length_modify, List.length_map]

end Lengths

section Field
variable {α : Type} [Field α]

/-! ## Open systems -/

/-- The unknown of an eliminated row is what the row gives with the unknown behind it. -/
theorem substitute_eq (c d : α) (xs : List α) : substitute c d xs = (d - c * entry xs 0) :: xs := by
  cases xs with
  | nil => simp [substitute]
  | cons x xs => rfl

/-- An open system is solved as if a row above had left nothing to it. -/
theorem solve_eq (rows : List (Row α)) : solve rows = eliminate 0 0 rows := by
  cases rows with
  | nil => rfl
  | cons row rows => simp only [solve, eliminate, mul_zero, sub_zero]

/-- The left side of a row of an open system, at a place of the unknowns. -/
def Row.openSide (row : Row α) (before : α) (xs : List α) (i : Nat) : α :=
  row.sub * entry (before :: xs) i + row.diag * entry xs i + row.sup * entry xs (i + 1)

/-! ## Closed systems -/

/-- The left side of a row of a closed system, at a place of the unknowns. -/
def Row.closedSide (row : Row α) (xs : List α) (i : Nat) : α :=
  row.sub * entry xs ((i + xs.length - 1) % xs.length) + row.diag * entry xs i +
    row.sup * entry xs ((i + 1) % xs.length)

theorem entry_zipWith_sub {xs zs : List α} (hlength : zs.length = xs.length) (f : α) (i : Nat) :
    entry (xs.zipWith (fun x z => x - f * z) zs) i = entry xs i - f * entry zs i := by
  rcases Nat.lt_or_ge i xs.length with hi | hi
  · rw [entry, List.getElem?_zipWith, getElem?_eq_entry hi, getElem?_eq_entry (hlength ▸ hi)]
    rfl
  · have hsame : (xs.zipWith (fun x z => x - f * z) zs).length = xs.length := by
      rw [List.length_zipWith, hlength, Nat.min_self]
    rw [entry_of_le hi, entry_of_le (hlength.trans_le hi), entry_of_le (hsame.trans_le hi),
      mul_zero, sub_zero]

/-- The left side of a row is linear in the unknowns. -/
theorem Row.closedSide_sub {xs zs : List α} (hlength : zs.length = xs.length) (row : Row α) (f : α)
    (i : Nat) :
    row.closedSide (xs.zipWith (fun x z => x - f * z) zs) i =
      row.closedSide xs i - f * row.closedSide zs i := by
  have hsame : (xs.zipWith (fun x z => x - f * z) zs).length = xs.length := by
    rw [List.length_zipWith, hlength, Nat.min_self]
  simp only [Row.closedSide, entry_zipWith_sub hlength, hsame, hlength]
  ring

/-! ## Opening the ring -/

/-- What is missing of the closed system when the ring is open: this at the first and the last
place, times one number. -/
def seam (shift alpha : α) (count i : Nat) : α :=
  if i + 1 = count then alpha else if i = 0 then shift else 0

theorem getElem?_opened (shift alpha beta : α) (rows : List (Row α)) (i : Nat) :
    (opened shift alpha beta rows)[i]? = rows[i]?.map fun r =>
      { r with
        diag := r.diag - (if i = 0 then shift else 0) -
          if i + 1 = rows.length then alpha * beta / shift else 0 } := by
  rw [opened, List.getElem?_modify, List.getElem?_modify]
  cases hi : rows[i]? with
  | none => rfl
  | some row =>
      have hlt : i < rows.length := (List.getElem?_eq_some_iff.mp hi).1
      have hlast : rows.length - 1 = i ↔ i + 1 = rows.length := by omega
      simp only [Option.map_some, hlast, eq_comm (a := 0), Option.map_eq_map]
      split <;> split <;> simp

theorem getElem?_correction (shift alpha : α) (rows : List (Row α)) (i : Nat) :
    (correction shift alpha rows)[i]? = rows[i]?.map fun r =>
      { r with rhs := seam shift alpha rows.length i } := by
  rw [correction, List.getElem?_modify, List.getElem?_modify, List.getElem?_map]
  cases hi : rows[i]? with
  | none => rfl
  | some row =>
      have hlt : i < rows.length := (List.getElem?_eq_some_iff.mp hi).1
      have hlast : rows.length - 1 = i ↔ i + 1 = rows.length := by omega
      simp only [Option.map_some, hlast, eq_comm (a := 0), Option.map_eq_map, seam]
      split <;> split <;> simp

/-- The left side of a row in the closed system is that in the opened one and, at the seam, a
multiple of one number that depends on the ends of the unknowns. -/
theorem closedSide_eq {rows : List (Row α)} (hcount : 2 ≤ rows.length) {first last : Row α}
    (hfirst : rows.head? = some first) (hlast : rows.getLast? = some last) {shift : α}
    (hshift : shift ≠ 0) {xs : List α} (hlength : xs.length = rows.length) {i : Nat}
    {row row' : Row α} (hi : rows[i]? = some row)
    (hi' : (opened shift last.sup first.sub rows)[i]? = some row') :
    row.closedSide xs i =
      row'.openSide 0 xs i +
        seam shift last.sup rows.length i * (front xs + first.sub * back xs / shift) := by
  have hlt : i < rows.length := (List.getElem?_eq_some_iff.mp hi).1
  rw [getElem?_opened, hi] at hi'
  cases hi'
  rw [front_eq, back_eq, Row.closedSide, Row.openSide, hlength]
  rcases Nat.eq_zero_or_pos i with rfl | hpos
  · -- The first row: its neighbour before is the last unknown.
    rw [List.head?_eq_getElem?, hi] at hfirst
    cases hfirst
    have hbefore : (0 + rows.length - 1) % rows.length = rows.length - 1 := by
      rw [Nat.zero_add, Nat.mod_eq_of_lt (by omega)]
    have hbehind : (0 + 1) % rows.length = 0 + 1 := Nat.mod_eq_of_lt (by omega)
    have hne : ¬0 + 1 = rows.length := by omega
    rw [hbefore, hbehind, seam, if_neg hne, if_pos rfl]
    simp only [if_neg hne, entry_cons_zero]
    field_simp
    ring
  · have hbefore : (i + rows.length - 1) % rows.length = i - 1 := by
      have : i + rows.length - 1 = i - 1 + rows.length := by omega
      rw [this, Nat.add_mod_right, Nat.mod_eq_of_lt (by omega)]
    have hentry : entry ((0 : α) :: xs) i = entry xs (i - 1) := by
      obtain ⟨j, rfl⟩ := Nat.exists_eq_succ_of_ne_zero (Nat.pos_iff_ne_zero.mp hpos)
      rfl
    rw [hbefore, hentry, seam]
    rcases Nat.lt_or_ge (i + 1) rows.length with hin | hend
    · -- A row between the ends has the same neighbours in both systems.
      rw [Nat.mod_eq_of_lt hin, if_neg hin.ne, if_neg hpos.ne']
      simp only [if_neg hin.ne]
      ring
    · -- The last row: its neighbour behind is the first unknown.
      have hi1 : i + 1 = rows.length := by omega
      have hlasti : rows.length - 1 = i := by omega
      rw [List.getLast?_eq_getElem?, hlasti, hi] at hlast
      cases hlast
      have hnone : entry xs (i + 1) = 0 := entry_of_le (by omega)
      rw [hi1, Nat.mod_self, ← hi1, hnone, if_pos rfl, Nat.add_sub_cancel]
      simp only [if_neg hpos.ne', if_pos]
      field_simp
      ring

theorem exists_ends {β : Type} {xs : List β} (h : 0 < xs.length) :
    ∃ first last, xs.head? = some first ∧ xs.getLast? = some last := by
  have hne : xs ≠ [] := List.ne_nil_of_length_pos h
  exact ⟨_, _, List.head?_eq_some_head hne, List.getLast?_eq_some_getLast hne⟩

/-- The unknowns of the opened system less a multiple of the correction. -/
theorem solveCyclic_eq {rows : List (Row α)} {first last : Row α}
    (hfirst : rows.head? = some first) (hlast : rows.getLast? = some last) :
    let shift := -first.diag
    let xs := solve (opened shift last.sup first.sub rows)
    let zs := solve (correction shift last.sup (opened shift last.sup first.sub rows))
    solveCyclic rows = xs.zipWith (fun x z => x -
      (front xs + first.sub * back xs / shift) / (1 + front zs + first.sub * back zs / shift) * z)
      zs := by
  rw [solveCyclic, hfirst, hlast]

theorem length_solveCyclic (rows : List (Row α)) : (solveCyclic rows).length = rows.length := by
  rcases Nat.eq_zero_or_pos rows.length with hzero | hpos
  · rw [List.length_eq_zero_iff.mp hzero]
    rfl
  · obtain ⟨first, last, hfirst, hlast⟩ := exists_ends hpos
    rw [solveCyclic_eq hfirst hlast, List.length_zipWith, length_solve, length_solve,
      length_correction, length_opened, Nat.min_self]

end Field

/-! ## Dominant rows -/

section Ordered
variable {α : Type} [Field α] [LinearOrder α] [IsStrictOrderedRing α]

/-- The row's own coefficient outweighs those of its neighbours, and these are positive. -/
structure Row.Dominant (row : Row α) : Prop where
  sub_pos : 0 < row.sub
  sup_pos : 0 < row.sup
  sum_lt : row.sub + row.sup < row.diag

instance (row : Row α) : Decidable row.Dominant :=
  decidable_of_iff (0 < row.sub ∧ 0 < row.sup ∧ row.sub + row.sup < row.diag)
    ⟨fun ⟨hsub, hsup, hsum⟩ => ⟨hsub, hsup, hsum⟩, fun h => ⟨h.sub_pos, h.sup_pos, h.sum_lt⟩⟩

namespace Row.Dominant

variable {row : Row α} (h : row.Dominant)
include h

theorem diag_pos : 0 < row.diag := by
  have := h.sub_pos
  have := h.sup_pos
  have := h.sum_lt
  linarith

/-- Two neighbours that are not larger cannot make up for an unknown that is not zero. -/
theorem eq_zero {p x q : α} (hside : row.sub * p + row.diag * x + row.sup * q = 0)
    (hp : |p| ≤ |x|) (hq : |q| ≤ |x|) : x = 0 := by
  have hle : row.diag * |x| ≤ (row.sub + row.sup) * |x| := by
    calc row.diag * |x| = |row.diag * x| := by rw [abs_mul, abs_of_pos h.diag_pos]
      _ = |row.sub * p + row.sup * q| := by
        rw [← abs_neg]
        congr 1
        linear_combination -hside
      _ ≤ |row.sub * p| + |row.sup * q| := abs_add_le _ _
      _ = row.sub * |p| + row.sup * |q| := by
        rw [abs_mul, abs_mul, abs_of_pos h.sub_pos, abs_of_pos h.sup_pos]
      _ ≤ row.sub * |x| + row.sup * |x| :=
        add_le_add (mul_le_mul_of_nonneg_left hp h.sub_pos.le)
          (mul_le_mul_of_nonneg_left hq h.sup_pos.le)
      _ = (row.sub + row.sup) * |x| := by ring
  by_contra hne
  have hlt := mul_lt_mul_of_pos_right h.sum_lt (abs_pos.mpr hne)
  exact absurd hle (not_le.mpr hlt)

/-- Under a row that leaves at most its whole neighbour, the pivot still outweighs what follows. -/
theorem sup_lt_pivot {c : α} (hc : c ≤ 1) : row.sup < row.diag - row.sub * c := by
  have hsub : row.sub * c ≤ row.sub := mul_le_of_le_one_right h.sub_pos.le hc
  have := h.sum_lt
  linarith

theorem pivot_pos {c : α} (hc : c ≤ 1) : 0 < row.diag - row.sub * c :=
  h.sup_pos.trans (h.sup_lt_pivot hc)

/-- What the row leaves to the next one is less than its whole neighbour. -/
theorem left_le_one {c : α} (hc : c ≤ 1) : row.sup / (row.diag - row.sub * c) ≤ 1 :=
  (div_le_one (h.pivot_pos hc)).mpr (h.sup_lt_pivot hc).le

omit [IsStrictOrderedRing α] in
/-- A larger coefficient keeps a row dominant, whatever its right-hand side. -/
theorem widened {diag rhs : α} (hdiag : row.diag ≤ diag) :
    Row.Dominant ⟨row.sub, diag, row.sup, rhs⟩ where
  sub_pos := h.sub_pos
  sup_pos := h.sup_pos
  sum_lt := h.sum_lt.trans_le hdiag

end Row.Dominant

/-! ## Solutions -/

/-- Elimination solves the rows behind an eliminated one, whose unknown is `d - c * x` when `x`
is the first unknown behind it. -/
theorem openSide_eliminate {rows : List (Row α)} (h : ∀ row ∈ rows, row.Dominant) {c : α}
    (hc : c ≤ 1) (d : α) {i : Nat} {row : Row α} (hi : rows[i]? = some row) :
    row.openSide (d - c * entry (eliminate c d rows) 0) (eliminate c d rows) i = row.rhs := by
  induction rows generalizing c d i with
  | nil => exact absurd hi (by simp)
  | cons top rows ih =>
      obtain ⟨htop, hrows⟩ := List.forall_mem_cons.mp h
      have hpivot := (htop.pivot_pos hc).ne'
      rw [eliminate, substitute_eq]
      cases i with
      | zero =>
          cases hi
          simp only [Row.openSide, entry_cons_zero, entry_cons_succ]
          field_simp
          ring
      | succ i => exact ih hrows (htop.left_le_one hc) _ hi

/-- An open system of dominant rows is solved. -/
theorem openSide_solve {rows : List (Row α)} (h : ∀ row ∈ rows, row.Dominant) {i : Nat}
    {row : Row α} (hi : rows[i]? = some row) : row.openSide 0 (solve rows) i = row.rhs := by
  have hsolved := openSide_eliminate h (c := 0) zero_le_one 0 hi
  rw [zero_mul, sub_zero] at hsolved
  rw [solve_eq]
  exact hsolved

/-- With all right-hand sides zero a closed system of dominant rows has no solution but zero. -/
theorem eq_zero_of_closedSide {rows : List (Row α)} (h : ∀ row ∈ rows, row.Dominant) {xs : List α}
    (hlength : xs.length = rows.length)
    (hzero : ∀ (i : Nat) (row : Row α), rows[i]? = some row → row.closedSide xs i = 0) (i : Nat) :
    entry xs i = 0 := by
  rcases Nat.lt_or_ge i xs.length with hi | hi
  swap
  · exact entry_of_le hi
  -- The unknown of the largest magnitude cannot be outweighed by its neighbours.
  obtain ⟨m, hm, hmax⟩ := Finset.exists_max_image (Finset.range xs.length) (fun j => |entry xs j|)
    ⟨i, Finset.mem_range.mpr hi⟩
  have hmax : ∀ j, j < xs.length → |entry xs j| ≤ |entry xs m| :=
    fun j hj => hmax j (Finset.mem_range.mpr hj)
  have hm : m < rows.length := hlength ▸ Finset.mem_range.mp hm
  have hpos : 0 < xs.length := Nat.lt_of_le_of_lt (Nat.zero_le _) hi
  have hlargest : entry xs m = 0 :=
    (h _ (List.getElem_mem hm)).eq_zero (hzero m _ (List.getElem?_eq_getElem hm))
      (hmax _ (Nat.mod_lt _ hpos)) (hmax _ (Nat.mod_lt _ hpos))
  have hi := hmax i hi
  rw [hlargest, abs_zero] at hi
  exact abs_eq_zero.mp (le_antisymm hi (abs_nonneg _))

/-- Opening the ring keeps all rows dominant: the shift is negative, so that both entries grow. -/
theorem dominant_opened {rows : List (Row α)} (h : ∀ row ∈ rows, row.Dominant) {first last : Row α}
    (hfirst : rows.head? = some first) (hlast : rows.getLast? = some last) :
    ∀ row ∈ opened (-first.diag) last.sup first.sub rows, row.Dominant := by
  have hdiag : 0 < first.diag := (h _ (List.mem_of_mem_head? hfirst)).diag_pos
  have hsub : 0 < first.sub := (h _ (List.mem_of_mem_head? hfirst)).sub_pos
  have hsup : 0 < last.sup := (h _ (List.mem_of_getLast? hlast)).sup_pos
  intro row hrow
  obtain ⟨i, hi⟩ := List.mem_iff_getElem?.mp hrow
  rw [getElem?_opened, Option.map_eq_some_iff] at hi
  obtain ⟨old, hold, rfl⟩ := hi
  refine (h old (List.mem_of_getElem? hold)).widened ?_
  have hshift : (if i = 0 then -first.diag else 0) ≤ 0 := by
    split
    · exact neg_nonpos.mpr hdiag.le
    · exact le_rfl
  have hmade : (if i + 1 = rows.length then last.sup * first.sub / -first.diag else 0) ≤ 0 := by
    split
    · exact div_nonpos_of_nonneg_of_nonpos (mul_pos hsup hsub).le (neg_nonpos.mpr hdiag.le)
    · exact le_rfl
  linarith

omit [IsStrictOrderedRing α] in
theorem dominant_correction {shift alpha : α} {rows : List (Row α)}
    (h : ∀ row ∈ rows, row.Dominant) : ∀ row ∈ correction shift alpha rows, row.Dominant := by
  intro row hrow
  obtain ⟨i, hi⟩ := List.mem_iff_getElem?.mp hrow
  rw [getElem?_correction, Option.map_eq_some_iff] at hi
  obtain ⟨old, hold, rfl⟩ := hi
  exact (h old (List.mem_of_getElem? hold)).widened le_rfl

section Cyclic
variable {rows : List (Row α)} (hcount : 2 ≤ rows.length) (h : ∀ row ∈ rows, row.Dominant)
  {first last : Row α} (hfirst : rows.head? = some first) (hlast : rows.getLast? = some last)
include hcount h hfirst hlast

/-- The unknowns of the opened system, in the closed one. -/
theorem closedSide_solve {i : Nat} {row : Row α} (hi : rows[i]? = some row) :
    let xs := solve (opened (-first.diag) last.sup first.sub rows)
    row.closedSide xs i =
      row.rhs + seam (-first.diag) last.sup rows.length i *
        (front xs + first.sub * back xs / -first.diag) := by
  intro xs
  have hshift : -first.diag ≠ 0 :=
    neg_ne_zero.mpr (h _ (List.mem_of_mem_head? hfirst)).diag_pos.ne'
  have hlength : xs.length = rows.length := (length_solve _).trans (length_opened _ _ _ _)
  have hi' := getElem?_opened (-first.diag) last.sup first.sub rows i
  rw [hi, Option.map_some] at hi'
  rw [closedSide_eq hcount hfirst hlast hshift hlength hi hi',
    openSide_solve (dominant_opened h hfirst hlast) hi']

/-- The unknowns of the correction, in the closed system. -/
theorem closedSide_correction {i : Nat} {row : Row α} (hi : rows[i]? = some row) :
    let zs := solve (correction (-first.diag) last.sup
      (opened (-first.diag) last.sup first.sub rows))
    row.closedSide zs i =
      seam (-first.diag) last.sup rows.length i *
        (1 + front zs + first.sub * back zs / -first.diag) := by
  intro zs
  have hshift : -first.diag ≠ 0 :=
    neg_ne_zero.mpr (h _ (List.mem_of_mem_head? hfirst)).diag_pos.ne'
  have hlength : zs.length = rows.length :=
    (length_solve _).trans ((length_correction _ _ _).trans (length_opened _ _ _ _))
  have hi' := getElem?_opened (-first.diag) last.sup first.sub rows i
  rw [hi, Option.map_some] at hi'
  have hi'' := getElem?_correction (-first.diag) last.sup
    (opened (-first.diag) last.sup first.sub rows) i
  rw [hi', Option.map_some, length_opened] at hi''
  have hsolved := openSide_solve (dominant_correction (dominant_opened h hfirst hlast)) hi''
  rw [closedSide_eq hcount hfirst hlast hshift hlength hi hi']
  change _ = seam (-first.diag) last.sup rows.length i at hsolved
  refine (congrArg (· + _) hsolved).trans ?_
  ring

/-- The divisor of the correction is not zero: otherwise the correction would solve the closed
system with all right-hand sides zero, so it would be zero, and the divisor one. -/
theorem divisor_ne_zero :
    let zs := solve (correction (-first.diag) last.sup
      (opened (-first.diag) last.sup first.sub rows))
    1 + front zs + first.sub * back zs / -first.diag ≠ 0 := by
  intro zs hzero
  have hlength : zs.length = rows.length :=
    (length_solve _).trans ((length_correction _ _ _).trans (length_opened _ _ _ _))
  have hnothing : ∀ i, entry zs i = 0 := by
    refine eq_zero_of_closedSide h hlength fun i row hi => ?_
    rw [closedSide_correction hcount h hfirst hlast hi, hzero, mul_zero]
  rw [front_eq, back_eq, hnothing, hnothing, mul_zero, zero_div, add_zero, add_zero] at hzero
  exact one_ne_zero hzero

end Cyclic

/-- A closed system of at least two dominant rows is solved. -/
theorem closedSide_solveCyclic {rows : List (Row α)} (hcount : 2 ≤ rows.length)
    (h : ∀ row ∈ rows, row.Dominant) {i : Nat} {row : Row α} (hi : rows[i]? = some row) :
    row.closedSide (solveCyclic rows) i = row.rhs := by
  obtain ⟨first, last, hfirst, hlast⟩ := exists_ends (Nat.lt_of_lt_of_le Nat.two_pos hcount)
  have hcancel : ∀ {r u v w : α}, w ≠ 0 → r + u * v - v / w * (u * w) = r := by
    intro r u v w hw
    field_simp
    ring
  rw [solveCyclic_eq hfirst hlast, Row.closedSide_sub,
    closedSide_solve hcount h hfirst hlast hi, closedSide_correction hcount h hfirst hlast hi]
  · exact hcancel (divisor_ne_zero hcount h hfirst hlast)
  · rw [length_solve, length_solve, length_correction]

end Ordered

end Patchbay.Spline
