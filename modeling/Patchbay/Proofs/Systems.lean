import Mathlib.Algebra.Order.Field.Rat
import Patchbay.Proofs.Divisors
/-!
Closed systems are solved without a division by zero.

That no divisor is zero can be said in two ways: of the list of all numbers
that the solver divides by (`divisors`), and of a run of the solver itself
with numbers that a division by zero destroys (`Checked`).  The first could
leave out a division, and the second could miss one whose quotient is not
used.  They agree for all rows, dominant or not
(`undefined_mem_solveCyclic_iff`), so neither happens.

For dominant rows no divisor is zero, the unknowns satisfy all equations, and
no others do.
-/

namespace Patchbay.Spline

open Checked

/-! ## Undefined numbers -/

namespace Checked

variable {α : Type}

@[simp] theorem undefined_sub [Sub α] (x : Checked α) : undefined - x = undefined := by
  cases x <;> rfl

@[simp] theorem sub_undefined [Sub α] (x : Checked α) : x - undefined = undefined := by
  cases x <;> rfl

@[simp] theorem undefined_mul [Mul α] (x : Checked α) : undefined * x = undefined := by
  cases x <;> rfl

@[simp] theorem mul_undefined [Mul α] (x : Checked α) : x * undefined = undefined := by
  cases x <;> rfl

@[simp] theorem div_undefined [Div α] [OfNat α 0] [DecidableEq α] (x : Checked α) :
    x / undefined = undefined := by
  cases x <;> rfl

@[simp] theorem div_ok_zero [Div α] [OfNat α 0] [DecidableEq α] (x : Checked α) :
    x / ok 0 = undefined := by
  cases x with
  | ok x => exact if_pos rfl
  | undefined => rfl

end Checked

/-! ## Where a division by zero shows -/

section Undefined
variable {α : Type} [Field α] [DecidableEq α]

omit [DecidableEq α] in
/-- An unknown that is undefined stays so in front of the others and behind them. -/
theorem undefined_mem_substitute {c d : Checked α} {xs : List (Checked α)}
    (h : d = undefined ∨ undefined ∈ xs) : undefined ∈ substitute c d xs := by
  cases xs with
  | nil => simpa [substitute, eq_comm] using h
  | cons x xs =>
      rcases h with rfl | h
      · simp [substitute]
      · exact List.mem_cons_of_mem _ h

/-- A row without a coefficient of its own has no unknown. -/
theorem undefined_mem_eliminate {rows : List (Row (Checked α))} {row : Row (Checked α)}
    (hrow : row ∈ rows) (h : row.diag = undefined) (c d : Checked α) :
    undefined ∈ eliminate c d rows := by
  induction rows generalizing c d with
  | nil => exact absurd hrow List.not_mem_nil
  | cons top rows ih =>
      rw [eliminate]
      apply undefined_mem_substitute
      rcases List.mem_cons.mp hrow with rfl | hrow
      · left
        rw [h, undefined_sub, div_undefined]
      · right
        exact ih hrow _ _

theorem undefined_mem_solve {rows : List (Row (Checked α))} {row : Row (Checked α)}
    (hrow : row ∈ rows) (h : row.diag = undefined) : undefined ∈ solve rows := by
  cases rows with
  | nil => exact absurd hrow List.not_mem_nil
  | cons top rows =>
      rw [solve]
      apply undefined_mem_substitute
      rcases List.mem_cons.mp hrow with rfl | hrow
      · left
        rw [h, div_undefined]
      · right
        exact undefined_mem_eliminate hrow h _ _

/-- A pivot of zero leaves an unknown undefined. -/
theorem undefined_mem_eliminate_of_pivot {c : α} {rows : List (Row α)} (h : 0 ∈ pivots c rows)
    (d : α) : undefined ∈ eliminate (ok c) (ok d) (rows.map (Row.map ok)) := by
  induction rows generalizing c d with
  | nil => exact absurd h List.not_mem_nil
  | cons row rows ih =>
      simp only [List.map_cons, eliminate, Row.map, ok_mul, ok_sub]
      apply undefined_mem_substitute
      by_cases hpivot : row.diag - row.sub * c = 0
      · left
        rw [hpivot, div_ok_zero]
      · right
        have hrows : 0 ∈ pivots (row.sup / (row.diag - row.sub * c)) rows :=
          (List.mem_cons.mp h).resolve_left (Ne.symm hpivot)
        rw [ok_div hpivot, ok_div hpivot]
        exact ih hrows _

theorem undefined_mem_solve_of_pivot {rows : List (Row α)} (h : 0 ∈ pivots 0 rows) :
    undefined ∈ solve (rows.map (Row.map ok)) := by
  rw [solve_eq_checked]
  exact undefined_mem_eliminate_of_pivot h 0

/-- A shift of zero leaves the last row of the opened system without a coefficient. -/
theorem undefined_mem_solve_opened {rows : List (Row (Checked α))} (hpos : 0 < rows.length)
    (alpha beta : Checked α) : undefined ∈ solve (opened (ok 0) alpha beta rows) := by
  have hlt : rows.length - 1 < (opened (ok 0) alpha beta rows).length := by
    rw [length_opened]
    omega
  apply undefined_mem_solve (List.getElem_mem hlt)
  simp only [opened, List.getElem_modify, if_true, div_ok_zero, sub_undefined]

section Combination
variable {xs zs : List (Checked α)} {i : Nat} {x z : Checked α}

omit [DecidableEq α] in
theorem mem_zipWith_sub (hx : xs[i]? = some x) (hz : zs[i]? = some z) (f : Checked α) :
    x - f * z ∈ xs.zipWith (fun x z => x - f * z) zs := by
  apply List.mem_of_getElem? (i := i)
  rw [List.getElem?_zipWith, hx, hz]

omit [DecidableEq α] in
/-- What is undefined in one of two lists is so in their combination. -/
theorem undefined_mem_zipWith (hlength : zs.length = xs.length) (f : Checked α)
    (h : undefined ∈ xs ∨ undefined ∈ zs) :
    undefined ∈ xs.zipWith (fun x z => x - f * z) zs := by
  rcases h with h | h
  · obtain ⟨i, hi⟩ := List.mem_iff_getElem?.mp h
    have hlt : i < zs.length := hlength.symm ▸ (List.getElem?_eq_some_iff.mp hi).1
    have hmem := mem_zipWith_sub hi (List.getElem?_eq_getElem hlt) f
    rwa [undefined_sub] at hmem
  · obtain ⟨i, hi⟩ := List.mem_iff_getElem?.mp h
    have hlt : i < xs.length := hlength ▸ (List.getElem?_eq_some_iff.mp hi).1
    have hmem := mem_zipWith_sub (List.getElem?_eq_getElem hlt) hi f
    rwa [mul_undefined, sub_undefined] at hmem

omit [DecidableEq α] in
/-- An undefined factor leaves nothing defined. -/
theorem undefined_mem_zipWith_of_factor (hlength : zs.length = xs.length) (hpos : 0 < xs.length) :
    undefined ∈ xs.zipWith (fun x z => x - undefined * z) zs := by
  have hmem := mem_zipWith_sub (List.getElem?_eq_getElem hpos)
    (List.getElem?_eq_getElem (hlength.symm ▸ hpos)) undefined
  rwa [undefined_mul, sub_undefined] at hmem

end Combination

/-- A divisor of zero leaves no number to weigh the correction by. -/
theorem weight_undefined {shift beta : α} {xs : List (Checked α)} {zs : List α} (hshift : shift ≠ 0)
    (h : 1 + front zs + beta * back zs / shift = 0) :
    weight (ok shift) (ok beta) xs (zs.map ok) = undefined := by
  simp only [weight, front_checked, back_checked, ok_ofNat, ok_mul, ok_add, ok_div hshift, h,
    div_ok_zero]

/-- A zero among the divisors behind the shift shows in the corrected unknowns. -/
theorem undefined_mem_corrected {rows : List (Row α)} (hpos : 0 < rows.length) {shift alpha : α}
    (hshift : shift ≠ 0) (beta : α) :
    let zs := solve (correction shift alpha rows)
    let checkedXs := solve (rows.map (Row.map ok))
    let checkedZs := solve ((correction shift alpha rows).map (Row.map ok))
    0 ∈ pivots 0 rows ∨ 0 ∈ pivots 0 (correction shift alpha rows) ∨
        1 + front zs + beta * back zs / shift = 0 →
      undefined ∈ checkedXs.zipWith
        (fun x z => x - weight (ok shift) (ok beta) checkedXs checkedZs * z) checkedZs := by
  intro zs checkedXs checkedZs h
  have hlength : checkedZs.length = checkedXs.length := by
    rw [length_solve, length_solve, List.length_map, List.length_map, length_correction]
  by_cases hopened : 0 ∈ pivots 0 rows
  · apply undefined_mem_zipWith hlength
    left
    exact undefined_mem_solve_of_pivot hopened
  by_cases hcorrected : 0 ∈ pivots 0 (correction shift alpha rows)
  · apply undefined_mem_zipWith hlength
    right
    exact undefined_mem_solve_of_pivot hcorrected
  -- Both eliminations go well, so it is the correction that divides by zero.
  have hdivisor := (h.resolve_left hopened).resolve_left hcorrected
  have hchecked : checkedZs = zs.map ok := solve_checked hcorrected
  rw [hchecked, weight_undefined hshift hdivisor, ← hchecked]
  apply undefined_mem_zipWith_of_factor hlength
  rwa [length_solve, List.length_map]

/-- With checked numbers an unknown is undefined exactly when a divisor is zero: every quotient
has a part in the outcome, and the list of the divisors is complete. -/
theorem undefined_mem_solveCyclic_iff {rows : List (Row α)} :
    undefined ∈ solveCyclic (rows.map (Row.map ok)) ↔ 0 ∈ divisors rows := by
  constructor
  · intro hmem
    by_contra hzero
    rw [solveCyclic_checked hzero] at hmem
    obtain ⟨x, -, hx⟩ := List.mem_map.mp hmem
    cases hx
  · intro hzero
    rcases Nat.eq_zero_or_pos rows.length with hnone | hpos
    · rw [List.length_eq_zero_iff.mp hnone] at hzero
      exact absurd hzero List.not_mem_nil
    obtain ⟨first, last, hfirst, hlast⟩ := exists_ends hpos
    have hdivisors := (zero_mem_divisors hfirst hlast).mp hzero
    by_cases hshift : -first.diag = 0
    · rw [solveCyclic, List.head?_map, List.getLast?_map, hfirst, hlast]
      simp only [Option.map_some, Row.map, ok_neg, hshift]
      apply undefined_mem_zipWith
      · rw [length_solve, length_correction, length_solve]
      · left
        exact undefined_mem_solve_opened (by rwa [List.length_map]) _ _
    · rw [solveCyclic_checked_eq hfirst hlast hshift]
      exact undefined_mem_corrected (by rwa [length_opened]) hshift first.sub
        (hdivisors.resolve_left hshift)

end Undefined

/-! ## Dominant rows -/

section Dominant
variable {α : Type} [Field α] [LinearOrder α] [IsStrictOrderedRing α] {rows : List (Row α)}
  (h : ∀ row ∈ rows, row.Dominant)
include h

/-- A closed system of dominant rows has no other solution than the one that is found. -/
theorem eq_solveCyclic (hcount : 2 ≤ rows.length) {xs : List α} (hlength : xs.length = rows.length)
    (hsolved : ∀ (i : Nat) (row : Row α), rows[i]? = some row → row.closedSide xs i = row.rhs) :
    xs = solveCyclic rows := by
  have hsame : (solveCyclic rows).length = xs.length := (length_solveCyclic rows).trans hlength.symm
  -- The difference of the two solves the system with all right-hand sides zero.
  have hzero : ∀ i, entry (xs.zipWith (fun x z => x - 1 * z) (solveCyclic rows)) i = 0 := by
    apply eq_zero_of_closedSide h
    · rw [List.length_zipWith, hsame, Nat.min_self, hlength]
    · intro i row hi
      rw [Row.closedSide_sub hsame, hsolved i row hi, closedSide_solveCyclic hcount h hi, one_mul,
        sub_self]
  apply List.ext_getElem hsame.symm
  intro i hi hi'
  have hentry := hzero i
  rw [entry_zipWith_sub hsame, one_mul, sub_eq_zero, entry, entry, List.getElem?_eq_getElem hi,
    List.getElem?_eq_getElem hi'] at hentry
  exact hentry

/-- A closed system of three or more dominant rows is solved: no number that the solver divides by
is zero, nor is a quotient undefined in a run with checked numbers, and the unknowns, one for each
row, satisfy all equations around the ring. -/
theorem solveCyclic_solves (hcount : 3 ≤ rows.length) :
    0 ∉ divisors rows ∧
      solveCyclic (rows.map (Row.map ok)) = (solveCyclic rows).map ok ∧
      (solveCyclic rows).length = rows.length ∧
      ∀ (i : Nat) (row : Row α), rows[i]? = some row →
        row.closedSide (solveCyclic rows) i = row.rhs := by
  have htwo : 2 ≤ rows.length := Nat.le_of_succ_le hcount
  have hdivisors := zero_notMem_divisors htwo h
  refine ⟨hdivisors, solveCyclic_checked hdivisors, length_solveCyclic rows, ?_⟩
  intro i row hi
  exact closedSide_solveCyclic htwo h hi

end Dominant

/-- Three rows whose unknowns are one, two and three. -/
def unevenRows : List (Row ℚ) := [⟨1, 4, 2, 11⟩, ⟨2, 5, 1, 15⟩, ⟨1, 3, 1, 12⟩]

/-- The last of the three equations is `1 * 2 + 3 * 3 + 1 * 1 = 12`: behind the last unknown comes
the first. -/
theorem solveCyclic_solves_unevenRows :
    3 ≤ unevenRows.length ∧ (∀ row ∈ unevenRows, row.Dominant) ∧
      solveCyclic unevenRows = [1, 2, 3] ∧ 0 ∉ divisors unevenRows ∧
      solveCyclic (unevenRows.map (Row.map ok)) = [ok 1, ok 2, ok 3] ∧
      Row.closedSide ⟨1, 3, 1, 12⟩ ([1, 2, 3] : List ℚ) 2 = 12 := by
  have hcount : 3 ≤ unevenRows.length := by decide
  have hdominant : ∀ row ∈ unevenRows, row.Dominant := by decide +kernel
  have hfound : solveCyclic unevenRows = [1, 2, 3] := by decide +kernel
  obtain ⟨hdivisors, hchecked, -, hsolved⟩ := solveCyclic_solves hdominant hcount
  rw [hfound] at hchecked hsolved
  exact ⟨hcount, hdominant, hfound, hdivisors, hchecked, hsolved 2 _ rfl⟩

end Patchbay.Spline
