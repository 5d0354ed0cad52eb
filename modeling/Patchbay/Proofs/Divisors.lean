import Patchbay.Proofs.Curves
/-!
No division by zero.

The arithmetic of the splines is a parameter, so the program itself can be
run with numbers that a division by zero destroys (`Checked`).  Where such a
run ends with a number no division by zero has occurred in it.  The lemmas
say, function by function, that the run with checked numbers gives the same
results as the one with plain numbers.

For the solver that takes no more than its divisors not being zero
(`divisors`), and those of dominant rows are not: the pivots are positive,
and the divisor of the correction is not zero.  For the curve the chords of
the loop have to have a positive length.
-/

namespace Patchbay.Spline

/-! ## Checked numbers -/

/-- A number, or what is left of it behind a division by zero. -/
inductive Checked (α : Type) where
  | ok (x : α)
  | undefined

namespace Checked

variable {α : Type}

def map (f : α → α) : Checked α → Checked α
  | ok x => ok (f x)
  | undefined => undefined

def map₂ (f : α → α → α) : Checked α → Checked α → Checked α
  | ok x, ok y => ok (f x y)
  | _, _ => undefined

def le [LE α] : Checked α → Checked α → Prop
  | ok x, ok y => x ≤ y
  | _, _ => False

def decideLE [LE α] [DecidableLE α] : (x y : Checked α) → Decidable (le x y)
  | ok x, ok y => inferInstanceAs (Decidable (x ≤ y))
  | ok _, undefined => isFalse id
  | undefined, ok _ => isFalse id
  | undefined, undefined => isFalse id

/-- The quotient, which a divisor of zero destroys. -/
def div [Div α] [OfNat α 0] [DecidableEq α] : Checked α → Checked α → Checked α
  | ok x, ok y => if y = 0 then undefined else ok (x / y)
  | _, _ => undefined

instance [Add α] : Add (Checked α) := ⟨map₂ (· + ·)⟩
instance [Sub α] : Sub (Checked α) := ⟨map₂ (· - ·)⟩
instance [Mul α] : Mul (Checked α) := ⟨map₂ (· * ·)⟩
instance [Neg α] : Neg (Checked α) := ⟨map fun x => -x⟩
instance [Div α] [OfNat α 0] [DecidableEq α] : Div (Checked α) := ⟨div⟩
instance {n : Nat} [OfNat α n] : OfNat (Checked α) n := ⟨ok (OfNat.ofNat n)⟩
instance [LE α] : LE (Checked α) := ⟨le⟩
instance [LE α] [DecidableLE α] : DecidableLE (Checked α) := decideLE

@[simp] theorem ok_add [Add α] (x y : α) : ok x + ok y = ok (x + y) := rfl

@[simp] theorem ok_sub [Sub α] (x y : α) : ok x - ok y = ok (x - y) := rfl

@[simp] theorem ok_mul [Mul α] (x y : α) : ok x * ok y = ok (x * y) := rfl

@[simp] theorem ok_neg [Neg α] (x : α) : -ok x = ok (-x) := rfl

@[simp] theorem ok_ofNat (n : Nat) [OfNat α n] :
    (OfNat.ofNat n : Checked α) = ok (OfNat.ofNat n) := rfl

theorem ok_div [Div α] [OfNat α 0] [DecidableEq α] {y : α} (h : y ≠ 0) (x : α) :
    ok x / ok y = ok (x / y) :=
  if_neg h

end Checked

open Checked

/-! ## Solving -/

def Row.map {α β : Type} (f : α → β) (row : Row α) : Row β :=
  ⟨f row.sub, f row.diag, f row.sup, f row.rhs⟩

section Solving
variable {α : Type} [Field α]

theorem front_checked (xs : List α) : front (xs.map ok) = ok (front xs) := by
  cases xs <;> rfl

theorem back_checked (xs : List α) : back (xs.map ok) = ok (back xs) := by
  rw [back, back, List.getLast?_map]
  cases xs.getLast? <;> rfl

theorem substitute_checked (c d : α) (xs : List α) :
    substitute (ok c) (ok d) (xs.map ok) = (substitute c d xs).map ok := by
  cases xs <;> rfl

theorem opened_checked [DecidableEq α] {shift : α} (h : shift ≠ 0) (alpha beta : α)
    (rows : List (Row α)) :
    opened (ok shift) (ok alpha) (ok beta) (rows.map (Row.map ok)) =
      (opened shift alpha beta rows).map (Row.map ok) := by
  apply List.ext_getElem?
  intro i
  simp only [opened, List.getElem?_modify, List.getElem?_map, List.length_map, ok_mul, ok_div h]
  cases rows[i]? with
  | none => rfl
  | some row =>
      simp only [Option.map_some, Option.map_eq_map]
      split <;> split <;> rfl

theorem correction_checked (shift alpha : α) (rows : List (Row α)) :
    correction (ok shift) (ok alpha) (rows.map (Row.map ok)) =
      (correction shift alpha rows).map (Row.map ok) := by
  apply List.ext_getElem?
  intro i
  simp only [correction, List.getElem?_modify, List.getElem?_map, List.length_map]
  cases rows[i]? with
  | none => rfl
  | some row =>
      simp only [Option.map_some, Option.map_eq_map]
      split <;> split <;> rfl

theorem zipWith_checked (f : α) (xs zs : List α) :
    (xs.map ok).zipWith (fun x z => x - ok f * z) (zs.map ok) =
      (xs.zipWith (fun x z => x - f * z) zs).map ok := by
  rw [List.zipWith_map, List.map_zipWith]
  rfl

end Solving

/-! ## Divisors -/

section Divisors
variable {α : Type} [Field α]

/-- The numbers that elimination divides by, below a row that leaves `c`. -/
def pivots (c : α) : List (Row α) → List α
  | [] => []
  | row :: rest =>
    let pivot := row.diag - row.sub * c
    pivot :: pivots (row.sup / pivot) rest

/-- The numbers that solving a closed system divides by: the shift, the pivots of both
eliminations, and the divisor of the correction. -/
def divisors (rows : List (Row α)) : List α :=
  match rows.head?, rows.getLast? with
  | some first, some last =>
    let shift := -first.diag
    let open_ := opened shift last.sup first.sub rows
    let corrected := correction shift last.sup open_
    let zs := solve corrected
    shift :: (pivots 0 open_ ++ pivots 0 corrected ++
      [1 + front zs + first.sub * back zs / shift])
  | _, _ => []

theorem zero_notMem_pivots_cons {c : α} {row : Row α} {rows : List (Row α)} :
    0 ∉ pivots c (row :: rows) ↔
      row.diag - row.sub * c ≠ 0 ∧ 0 ∉ pivots (row.sup / (row.diag - row.sub * c)) rows := by
  rw [pivots, List.mem_cons, not_or, eq_comm]

theorem zero_mem_divisors {rows : List (Row α)} {first last : Row α}
    (hfirst : rows.head? = some first) (hlast : rows.getLast? = some last) :
    let open_ := opened (-first.diag) last.sup first.sub rows
    let corrected := correction (-first.diag) last.sup open_
    let zs := solve corrected
    0 ∈ divisors rows ↔
      -first.diag = 0 ∨ 0 ∈ pivots 0 open_ ∨ 0 ∈ pivots 0 corrected ∨
        1 + front zs + first.sub * back zs / -first.diag = 0 := by
  intro open_ corrected zs
  rw [divisors, hfirst, hlast]
  simp only [List.mem_cons, List.mem_append, List.not_mem_nil, or_false, or_assoc, eq_comm]
  rfl

variable [DecidableEq α]

theorem eliminate_checked {c : α} {rows : List (Row α)} (h : 0 ∉ pivots c rows) (d : α) :
    eliminate (ok c) (ok d) (rows.map (Row.map ok)) = (eliminate c d rows).map ok := by
  induction rows generalizing c d with
  | nil => rfl
  | cons row rows ih =>
      obtain ⟨hpivot, hrows⟩ := zero_notMem_pivots_cons.mp h
      simp only [List.map_cons, eliminate, Row.map, ok_mul, ok_sub, ok_div hpivot]
      rw [ih hrows, substitute_checked]

/-- Also with checked numbers the first row is eliminated as if nothing were left to it. -/
theorem solve_eq_checked (rows : List (Row α)) :
    solve (rows.map (Row.map ok)) = eliminate (ok 0) (ok 0) (rows.map (Row.map ok)) := by
  cases rows with
  | nil => rfl
  | cons row rows =>
      simp only [List.map_cons, solve, eliminate, Row.map, ok_mul, ok_sub, mul_zero, sub_zero]

theorem solve_checked {rows : List (Row α)} (h : 0 ∉ pivots 0 rows) :
    solve (rows.map (Row.map ok)) = (solve rows).map ok := by
  rw [solve_eq_checked, eliminate_checked h, solve_eq]

/-- How much of the correction `zs` is taken from the unknowns `xs` of the opened system. -/
def weight {β : Type} [Add β] [Mul β] [Div β] [OfNat β 0] [OfNat β 1] (shift beta : β)
    (xs zs : List β) : β :=
  (front xs + beta * back xs / shift) / (1 + front zs + beta * back zs / shift)

theorem weight_checked {shift beta : α} {xs zs : List α} (hshift : shift ≠ 0)
    (h : 1 + front zs + beta * back zs / shift ≠ 0) :
    weight (ok shift) (ok beta) (xs.map ok) (zs.map ok) = ok (weight shift beta xs zs) := by
  simp only [weight, front_checked, back_checked, ok_ofNat, ok_mul, ok_add, ok_div hshift, ok_div h]

/-- The checked run of the solver, when the shift is not zero: two eliminations, with checked
numbers, of the same rows as in the plain run. -/
theorem solveCyclic_checked_eq {rows : List (Row α)} {first last : Row α}
    (hfirst : rows.head? = some first) (hlast : rows.getLast? = some last)
    (hshift : -first.diag ≠ 0) :
    let open_ := opened (-first.diag) last.sup first.sub rows
    let xs := solve (open_.map (Row.map ok))
    let zs := solve ((correction (-first.diag) last.sup open_).map (Row.map ok))
    solveCyclic (rows.map (Row.map ok)) =
      xs.zipWith (fun x z => x - weight (ok (-first.diag)) (ok first.sub) xs zs * z) zs := by
  rw [solveCyclic, List.head?_map, List.getLast?_map, hfirst, hlast]
  simp only [Option.map_some, Row.map, ok_neg]
  rw [opened_checked hshift, correction_checked]
  rfl

/-- The checked run of the solver has the plain results when no divisor is zero. -/
theorem solveCyclic_checked {rows : List (Row α)} (h : 0 ∉ divisors rows) :
    solveCyclic (rows.map (Row.map ok)) = (solveCyclic rows).map ok := by
  rcases Nat.eq_zero_or_pos rows.length with hzero | hpos
  · rw [List.length_eq_zero_iff.mp hzero]
    rfl
  · obtain ⟨first, last, hfirst, hlast⟩ := exists_ends hpos
    simp only [zero_mem_divisors hfirst hlast, not_or] at h
    obtain ⟨hshift, hopened, hcorrected, hdivisor⟩ := h
    rw [solveCyclic_checked_eq hfirst hlast hshift, solveCyclic_eq hfirst hlast,
      solve_checked hopened, solve_checked hcorrected, weight_checked hshift hdivisor]
    exact zipWith_checked _ _ _

end Divisors

section Dominant
variable {α : Type} [Field α] [LinearOrder α] [IsStrictOrderedRing α]

/-- Under a row that leaves at most its whole neighbour all pivots of dominant rows are positive. -/
theorem pivots_pos {rows : List (Row α)} (h : ∀ row ∈ rows, row.Dominant) {c : α} (hc : c ≤ 1) :
    ∀ y ∈ pivots c rows, 0 < y := by
  induction rows generalizing c with
  | nil => exact fun y hy => absurd hy List.not_mem_nil
  | cons row rows ih =>
      obtain ⟨hrow, hrows⟩ := List.forall_mem_cons.mp h
      rw [pivots, List.forall_mem_cons]
      exact ⟨hrow.pivot_pos hc, ih hrows (hrow.left_le_one hc)⟩

theorem zero_notMem_pivots {rows : List (Row α)} (h : ∀ row ∈ rows, row.Dominant) :
    0 ∉ pivots 0 rows := by
  intro hzero
  exact lt_irrefl 0 (pivots_pos h zero_le_one 0 hzero)

/-- Solving a closed system of dominant rows divides by no zero, neither in its two eliminations
nor for the correction. -/
theorem zero_notMem_divisors {rows : List (Row α)} (hcount : 2 ≤ rows.length)
    (h : ∀ row ∈ rows, row.Dominant) : 0 ∉ divisors rows := by
  obtain ⟨first, last, hfirst, hlast⟩ := exists_ends (Nat.lt_of_lt_of_le Nat.two_pos hcount)
  have hshift : -first.diag ≠ 0 :=
    neg_ne_zero.mpr (h _ (List.mem_of_mem_head? hfirst)).diag_pos.ne'
  have hopened := dominant_opened h hfirst hlast
  have hdivisor := divisor_ne_zero hcount h hfirst hlast
  simp only [zero_mem_divisors hfirst hlast, not_or]
  exact ⟨hshift, zero_notMem_pivots hopened, zero_notMem_pivots (dominant_correction hopened),
    hdivisor⟩

end Dominant

/-! ## Making a curve -/

section Making
variable {α : Type} [Field α]

theorem knotsFrom_checked (start : α) (lengths : List α) :
    knotsFrom (ok start) (lengths.map ok) = (knotsFrom start lengths).map ok := by
  induction lengths generalizing start with
  | nil => rfl
  | cons x lengths ih => rw [List.map_cons, knotsFrom, ok_add, ih, knotsFrom, List.map_cons]

theorem momentRows_checked [DecidableEq α] {widths : List α} (h : ∀ w ∈ widths, w ≠ 0)
    (values : List α) :
    momentRows (widths.map ok) (values.map ok) = (momentRows widths values).map (Row.map ok) := by
  have hslopes : ∀ (f : Checked α × Checked α × Checked α → Checked α) (g : α × α × α → α),
      (∀ x ∈ widths.zip (steps values), f (Prod.map ok (Prod.map ok ok) x) = ok (g x)) →
      ((widths.map ok).zip (steps (values.map ok))).map f =
        ((widths.zip (steps values)).map g).map ok := by
    intro f g hfg
    rw [steps_map, List.zip_map, List.map_map, List.map_map]
    exact List.map_congr_left hfg
  simp only [momentRows]
  rw [hslopes _ _ fun x hx => ok_div (h x.1 (List.of_mem_zip hx).1) _, rotated_map, rotated_map,
    List.zip_map, List.zip_map, List.zip_map, List.map_map, List.map_map]
  rfl

variable [LinearOrder α] [IsStrictOrderedRing α]

theorem axisMoments_checked {widths values : List α} (h : values.length = widths.length)
    (hcount : 2 ≤ widths.length) (hpos : ∀ w ∈ widths, 0 < w) :
    axisMoments (widths.map ok) (closed (values.map ok)) =
      (axisMoments widths (closed values)).map ok := by
  rw [axisMoments, closed_map, momentRows_checked (fun w hw => (hpos w hw).ne'),
    solveCyclic_checked (zero_notMem_divisors (by rwa [length_momentRows h])
      (dominant_momentRows h hpos)), axisMoments]

theorem moments_checked {widths : List α} {points : List (Point α)} (hcount : 3 ≤ points.length)
    (h : widths.length = points.length) (hpos : ∀ w ∈ widths, 0 < w) :
    moments (widths.map ok) (points.map (Point.map ok)) =
      (moments widths points).map (Point.map ok) := by
  have haxis : ∀ axis : Axis,
      axisMoments (widths.map ok) ((closed (points.map (Point.map ok))).map axis.of) =
        (axisMoments widths ((closed points).map axis.of)).map ok := by
    intro axis
    have hvalues : (points.map (Point.map ok)).map axis.of = (points.map axis.of).map ok := by
      rw [List.map_map, List.map_map]
      exact List.map_congr_left fun p _ => Axis.of_map ok axis p
    rw [← closed_map, ← closed_map, hvalues]
    exact axisMoments_checked (by rw [List.length_map, h]) (by omega) hpos
  rw [moments_eq (by rwa [List.length_map]), moments_eq hcount]
  simp only [haxis, List.zip_map, List.map_map]
  rfl

theorem segments_checked {points : List (Point α)} {chords : List α} (hcount : 3 ≤ points.length)
    (h : chords.length = points.length) (hpos : ∀ w ∈ chords, 0 < w) :
    segments (points.map (Point.map ok)) (chords.map ok) =
      (segments points chords).map (Segment.map ok) := by
  have hknots : knotsFrom 0 (chords.map ok) = (knotsFrom 0 chords).map ok :=
    knotsFrom_checked 0 chords
  have hwidths :
      ((steps ((knotsFrom 0 chords).map ok)).map fun (a, b) => b - a) = chords.map ok := by
    rw [steps_map, List.map_map, ← congrArg (List.map ok) (widths_knotsFrom 0 chords), List.map_map]
    rfl
  simp only [segments, hknots, hwidths, widths_knotsFrom]
  rw [moments_checked hcount h hpos, closed_map, closed_map, steps_map, steps_map, steps_map,
    List.zip_map, List.zip_map, List.map_map, List.map_map]
  rfl

/-- Making the curve through a loop of three points or more divides by no zero. -/
theorem Curve.through_checked {points : List (Point α)} {chords : List α}
    (hcount : 3 ≤ points.length) (h : chords.length = points.length) (hpos : ∀ w ∈ chords, 0 < w) :
    Curve.through (points.map (Point.map ok)) (chords.map ok) =
      (Curve.through points chords).map (Curve.map ok) := by
  rw [Curve.through, segments_checked hcount h hpos, Curve.through]
  cases Spline.segments points chords with
  | nil => rfl
  | cons first rest =>
      simp only [List.map_cons, Option.map_some, Curve.map, List.getLast?_map]
      cases rest.getLast? <;> rfl

end Making

/-! ## Places on a curve -/

section Places
variable {α : Type} [Field α] [LinearOrder α]

omit [Field α] in
theorem pick_checked (s : α) (g : Segment α) (rest : List (Segment α)) :
    pick (ok s) (g.map ok) (rest.map (Segment.map ok)) = (pick s g rest).map ok := by
  induction rest generalizing g with
  | nil => rfl
  | cons next rest ih =>
      rw [List.map_cons, pick, pick, ih]
      change (if next.start ≤ s then _ else _) = _
      split <;> rfl

variable [IsStrictOrderedRing α]

theorem cubic_checked {start stop : α} (h : stop - start ≠ 0) (p q m n s : α) :
    cubic (ok start) (ok stop) (ok p) (ok q) (ok m) (ok n) (ok s) =
      ok (cubic start stop p q m n s) := by
  have h6 : (6 : α) ≠ 0 := by norm_num
  simp only [cubic, ok_ofNat, ok_sub, ok_mul, ok_add, ok_div h, ok_div h6,
    ok_div (mul_ne_zero h6 h)]

theorem Segment.eval_checked {g : Segment α} (h : g.stop - g.start ≠ 0) (s : α) :
    (g.map ok).eval (ok s) = (g.eval s).map ok := by
  apply Axis.ext
  intro axis
  rw [Axis.of_map, Axis.of_eval, Axis.of_eval]
  simp only [Segment.map, Axis.of_map]
  exact cubic_checked h _ _ _ _ _

/-- A point of a curve is found without a division by zero, when the segment that is picked for
it is not empty. -/
theorem Curve.position_checked {c : Curve α} {lap : α → α} {t : α}
    (h : (c.segmentAt (lap t * c.length)).stop - (c.segmentAt (lap t * c.length)).start ≠ 0) :
    (c.map ok).position (Checked.map lap) (ok t) = (c.position lap t).map ok := by
  have hpick : (c.map ok).segmentAt (ok (lap t * c.length)) =
      (c.segmentAt (lap t * c.length)).map ok := pick_checked _ _ _
  rw [Curve.position, Curve.position]
  change (if c.length ≤ 0 then _ else ((c.map ok).segmentAt (ok (lap t * c.length))).eval _) = _
  split
  · rfl
  · rw [hpick]
    exact Segment.eval_checked h _

end Places

end Patchbay.Spline
