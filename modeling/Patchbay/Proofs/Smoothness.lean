import Mathlib.Algebra.Order.BigOperators.Group.List
import Mathlib.Algebra.Polynomial.FieldDivision
import Mathlib.Data.Rat.Floor
import Patchbay.Proofs.Divisors
/-!
Closed curves are smooth.

The arithmetic is exact here, that of an ordered field, and the lengths of
the chords are any positive numbers.  The derivatives of a cubic are those of
a polynomial, and that polynomial is the program's own formula, run on
polynomials (`Segment.polynomial`).

At its ends a cubic has the second derivatives that it was made with, so the
second derivatives of two neighbours agree by construction.  The first ones
agree because of the system that the second derivatives solve: its row for a
point is the equation of the two slopes there, also for the first point, with
the last chord before it.
-/

namespace Patchbay.Spline

open Checked Polynomial

section Field
variable {α : Type} [Field α]

/-! ## Cubics as polynomials -/

/-- The cubic of one coordinate of a segment, as a polynomial. -/
noncomputable def Segment.polynomial (g : Segment α) (axis : Axis) : α[X] :=
  axis.of ((g.map C).eval X)

/-- The formula for a cubic, without divisions by polynomials. -/
theorem cubic_polynomial (start stop p q m n : α) :
    cubic (C start) (C stop) (C p) (C q) (C m) (C n) X =
      C (m / (6 * (stop - start))) * (C stop - X) ^ 3 +
        C (n / (6 * (stop - start))) * (X - C start) ^ 3 +
        C (p / (stop - start) - m * (stop - start) / 6) * (C stop - X) +
        C (q / (stop - start) - n * (stop - start) / 6) * (X - C start) := by
  have h6 : (6 : α[X]) = C 6 := rfl
  have hcube : ∀ (r u : α) (f : α[X]), C r * f * f * f / C u = C (r / u) * f ^ 3 := by
    intro r u f
    rw [div_C, div_eq_mul_inv, C_mul]
    ring
  simp only [cubic, h6, ← C_sub, ← C_mul, hcube, ← C_div]

theorem eval_cubic_polynomial (start stop p q m n s : α) :
    (cubic (C start) (C stop) (C p) (C q) (C m) (C n) X).eval s = cubic start stop p q m n s := by
  rw [cubic_polynomial]
  simp only [eval_add, eval_mul, eval_pow, eval_sub, eval_C, eval_X, cubic, div_eq_mul_inv]
  ring

theorem Segment.polynomial_eq (g : Segment α) (axis : Axis) :
    g.polynomial axis =
      cubic (C g.start) (C g.stop) (C (axis.of g.startPoint)) (C (axis.of g.stopPoint))
        (C (axis.of g.startMoment)) (C (axis.of g.stopMoment)) X := by
  rw [Segment.polynomial, Axis.of_eval]
  simp only [Segment.map, Axis.of_map]

/-- The polynomial of a coordinate has the values of that coordinate. -/
theorem Segment.eval_polynomial (g : Segment α) (axis : Axis) (s : α) :
    (g.polynomial axis).eval s = axis.of (g.eval s) := by
  rw [polynomial_eq, eval_cubic_polynomial, Axis.of_eval]

/-! ## Derivatives -/

/-- The first derivative of a coordinate of a segment. -/
noncomputable def Segment.slope (g : Segment α) (axis : Axis) (s : α) : α :=
  (derivative (g.polynomial axis)).eval s

/-- The second derivative of a coordinate of a segment. -/
noncomputable def Segment.bend (g : Segment α) (axis : Axis) (s : α) : α :=
  (derivative (derivative (g.polynomial axis))).eval s

theorem Segment.slope_eq (g : Segment α) (axis : Axis) (s : α) :
    let h := g.stop - g.start
    g.slope axis s =
      3 * (axis.of g.stopMoment / (6 * h)) * (s - g.start) ^ 2 -
        3 * (axis.of g.startMoment / (6 * h)) * (g.stop - s) ^ 2 +
        (axis.of g.stopPoint / h - axis.of g.stopMoment * h / 6) -
        (axis.of g.startPoint / h - axis.of g.startMoment * h / 6) := by
  intro h
  rw [Segment.slope, polynomial_eq, cubic_polynomial]
  simp only [derivative_add, derivative_mul, derivative_pow, derivative_sub, derivative_C,
    derivative_X, eval_add, eval_sub, eval_mul, eval_pow, eval_C, eval_X, eval_zero, eval_one,
    Nat.cast_ofNat, Nat.reduceSub]
  ring

theorem Segment.bend_eq (g : Segment α) (axis : Axis) (s : α) :
    let h := g.stop - g.start
    g.bend axis s =
      6 * (axis.of g.stopMoment / (6 * h)) * (s - g.start) +
        6 * (axis.of g.startMoment / (6 * h)) * (g.stop - s) := by
  intro h
  rw [Segment.bend, polynomial_eq, cubic_polynomial]
  simp only [derivative_add, derivative_mul, derivative_pow, derivative_sub, derivative_C,
    derivative_X, derivative_zero, derivative_one, eval_add, eval_sub, eval_mul, eval_pow, eval_C,
    eval_X, eval_zero, eval_one, Nat.cast_ofNat, Nat.reduceSub]
  ring

/-! ## Ends -/

section Ends
variable [CharZero α] {g : Segment α} (h : g.stop - g.start ≠ 0)
include h

theorem Segment.eval_start : g.eval g.start = g.startPoint := by
  apply Axis.ext
  intro axis
  rw [Axis.of_eval, cubic]
  field_simp
  ring

theorem Segment.eval_stop : g.eval g.stop = g.stopPoint := by
  apply Axis.ext
  intro axis
  rw [Axis.of_eval, cubic]
  field_simp
  ring

theorem Segment.slope_start (axis : Axis) :
    g.slope axis g.start =
      (axis.of g.stopPoint - axis.of g.startPoint) / (g.stop - g.start) -
        (g.stop - g.start) * (2 * axis.of g.startMoment + axis.of g.stopMoment) / 6 := by
  rw [slope_eq]
  field_simp
  ring

theorem Segment.slope_stop (axis : Axis) :
    g.slope axis g.stop =
      (axis.of g.stopPoint - axis.of g.startPoint) / (g.stop - g.start) +
        (g.stop - g.start) * (axis.of g.startMoment + 2 * axis.of g.stopMoment) / 6 := by
  rw [slope_eq]
  field_simp
  ring

theorem Segment.bend_start (axis : Axis) : g.bend axis g.start = axis.of g.startMoment := by
  rw [bend_eq]
  field_simp
  ring

theorem Segment.bend_stop (axis : Axis) : g.bend axis g.stop = axis.of g.stopMoment := by
  rw [bend_eq]
  field_simp
  ring

end Ends

end Field

/-! ## Laps -/

section Laps
variable {α : Type} [Field α] [LinearOrder α] [IsStrictOrderedRing α]

/-- What is left of a number of laps without the whole ones, as the remainder modulo one that is
never negative. -/
structure LapFraction (lap : α → α) : Prop where
  nonneg (t : α) : 0 ≤ lap t
  lt_one (t : α) : lap t < 1
  whole (t : α) : ∃ m : ℤ, t = lap t + m

theorem lapFraction_fract [FloorRing α] : LapFraction (Int.fract : α → α) where
  nonneg := Int.fract_nonneg
  lt_one := Int.fract_lt_one
  whole t := ⟨⌊t⌋, (Int.fract_add_floor t).symm⟩

/-- Whole laps more or less make no difference. -/
theorem LapFraction.add_int {lap : α → α} (h : LapFraction lap) (t : α) (m : ℤ) :
    lap (t + m) = lap t := by
  obtain ⟨i, hi⟩ := h.whole t
  obtain ⟨j, hj⟩ := h.whole (t + m)
  have hdiff : lap (t + m) - lap t = ((i + m - j : ℤ) : α) := by
    push_cast
    linear_combination hi - hj
  have hlow : ((-1 : ℤ) : α) < ((i + m - j : ℤ) : α) := by
    rw [← hdiff, Int.cast_neg, Int.cast_one]
    linarith [h.nonneg (t + m), h.lt_one t]
  have hhigh : ((i + m - j : ℤ) : α) < ((1 : ℤ) : α) := by
    rw [← hdiff, Int.cast_one]
    linarith [h.nonneg t, h.lt_one (t + m)]
  have hnone : i + m - j = 0 := by
    have := Int.cast_lt.mp hlow
    have := Int.cast_lt.mp hhigh
    omega
  rw [hnone, Int.cast_zero] at hdiff
  exact sub_eq_zero.mp hdiff

end Laps

/-! ## Curves through loops -/

namespace Curve

section Loop
variable {α : Type} [Field α] {points : List (Point α)} {chords : List α} {c : Curve α}

/-- The cubics lead over the chords from each point of a loop to the next one, the last cubic to
the first point. -/
structure Interpolates (c : Curve α) (points : List (Point α)) (chords : List α) : Prop where
  count : c.segments.length = points.length
  width {k : Nat} {g : Segment α} : c.segments[k]? = some g → chords[k]? = some (g.stop - g.start)
  start {k : Nat} {g : Segment α} : c.segments[k]? = some g → points[k]? = some (g.eval g.start)
  stop {k : Nat} {g : Segment α} :
    c.segments[k]? = some g → points[(k + 1) % points.length]? = some (g.eval g.stop)

/-- Where two cubics meet their first and second derivatives agree, also where the last one meets
the first.  They are the derivatives of polynomials with the values of the cubics. -/
structure Smooth (c : Curve α) : Prop where
  values {g : Segment α} (axis : Axis) (s : α) :
    g ∈ c.segments → (g.polynomial axis).eval s = axis.of (g.eval s)
  slope {k : Nat} {g g' : Segment α} (axis : Axis) :
    c.segments[k]? = some g → c.segments[(k + 1) % c.segments.length]? = some g' →
    g.slope axis g.stop = g'.slope axis g'.start
  bend {k : Nat} {g g' : Segment α} (axis : Axis) :
    c.segments[k]? = some g → c.segments[(k + 1) % c.segments.length]? = some g' →
    g.bend axis g.stop = g'.bend axis g'.start

/-- The point at a lap fraction is on a segment that contains the lap position; whole laps make
no difference. -/
structure Circular [LinearOrder α] (c : Curve α) (lap : α → α) : Prop where
  picked (t : α) : c.segmentAt (lap t * c.length) ∈ c.segments
  start_le (t : α) : (c.segmentAt (lap t * c.length)).start ≤ lap t * c.length
  lt_stop (t : α) : lap t * c.length < (c.segmentAt (lap t * c.length)).stop
  position (t : α) :
    c.position lap t = (c.segmentAt (lap t * c.length)).eval (lap t * c.length)
  periodic (t : α) (m : ℤ) : c.position lap (t + m) = c.position lap t

/-- No division by zero has a part in the curve through a loop or in a point of it: with numbers
that a division by zero destroys, the curve and the point are the same. -/
structure Defined [LinearOrder α] (c : Curve α) (points : List (Point α)) (chords : List α)
    (lap : α → α) : Prop where
  through : Curve.through (points.map (Point.map ok)) (chords.map ok) = some (c.map ok)
  position (t : α) :
    (c.map ok).position (Checked.map lap) (ok t) = (c.position lap t).map ok

variable (hlength : chords.length = points.length)
  (hsegments : c.segments = Spline.segments points chords)

section Places
include hlength hsegments

theorem width_of_segments {k : Nat} {g : Segment α} (hg : c.segments[k]? = some g) :
    chords[k]? = some (g.stop - g.start) := by
  rw [hsegments] at hg
  obtain ⟨hk, hstart, hstop, -⟩ := (getElem?_segments hlength).mp hg
  obtain ⟨x, hx⟩ : ∃ x, chords[k]? = some x :=
    ⟨_, List.getElem?_eq_getElem (hlength.symm ▸ hk)⟩
  rw [hstart, hstop, sum_take_succ hx, add_sub_cancel_left, hx]

/-- What the system for the second derivatives knows of a segment: its width, the slope of its
chord and the second derivatives at its ends. -/
theorem entries_of_segments (hcount : 3 ≤ points.length) {k : Nat} {g : Segment α}
    (hg : c.segments[k]? = some g) (axis : Axis) :
    let values := points.map axis.of
    let m := entry (axisMoments chords (closed values))
    k < points.length ∧ entry chords k = g.stop - g.start ∧
      chordSlope chords values k =
        (axis.of g.stopPoint - axis.of g.startPoint) / (g.stop - g.start) ∧
      m k = axis.of g.startMoment ∧ m ((k + 1) % points.length) = axis.of g.stopMoment := by
  intro values m
  have hwidth := entry_of_getElem? (width_of_segments hlength hsegments hg)
  have hvalues : values.length = points.length := List.length_map _
  rw [hsegments] at hg
  obtain ⟨hk, -, -, hp, hq, hm, hn⟩ := (getElem?_segments hlength).mp hg
  have hvalue : ∀ {i : Nat} {p : Point α}, points[i]? = some p → entry values i = axis.of p := by
    intro i p hp
    apply entry_of_getElem?
    rw [List.getElem?_map, hp, Option.map_some]
  have hmoment : ∀ {i : Nat} {p : Point α}, (moments chords points)[i]? = some p →
      m i = axis.of p := by
    intro i p hp
    have hi : i < points.length := by
      rw [← length_moments hlength]
      exact (List.getElem?_eq_some_iff.mp hp).1
    obtain ⟨p', hp', haxis⟩ := getElem?_moments hcount hlength hi
    rw [hp, Option.some.injEq] at hp'
    exact hp' ▸ (haxis axis).symm
  refine ⟨hk, hwidth, ?_, hmoment hm, hmoment hn⟩
  rw [chordSlope, hwidth, hvalues, hvalue hp, hvalue hq]

end Places

variable [LinearOrder α] (hpos : ∀ h ∈ chords, 0 < h)
include hlength hsegments hpos

theorem width_ne_zero {k : Nat} {g : Segment α} (hg : c.segments[k]? = some g) :
    g.stop - g.start ≠ 0 :=
  (hpos _ (List.mem_of_getElem? (width_of_segments hlength hsegments hg))).ne'

variable [IsStrictOrderedRing α]

theorem interpolates_of_segments : c.Interpolates points chords where
  count := by rw [hsegments, length_segments hlength]
  width := width_of_segments hlength hsegments
  start {k g} hg := by
    rw [Segment.eval_start (width_ne_zero hlength hsegments hpos hg)]
    rw [hsegments] at hg
    obtain ⟨-, -, -, hp, -⟩ := (getElem?_segments hlength).mp hg
    exact hp
  stop {k g} hg := by
    rw [Segment.eval_stop (width_ne_zero hlength hsegments hpos hg)]
    rw [hsegments] at hg
    obtain ⟨-, -, -, -, hq, -⟩ := (getElem?_segments hlength).mp hg
    exact hq

theorem smooth_of_segments (hcount : 3 ≤ points.length) : c.Smooth := by
  have hcircle : c.segments.length = points.length := by rw [hsegments, length_segments hlength]
  refine ⟨fun axis s _ => Segment.eval_polynomial _ axis s, ?_, ?_⟩
  · intro k g g' axis hg hg'
    rw [hcircle] at hg'
    have hh := width_ne_zero hlength hsegments hpos hg
    have hh' := width_ne_zero hlength hsegments hpos hg'
    obtain ⟨hk, hwidth, hslope, hm, hn⟩ := entries_of_segments hlength hsegments hcount hg axis
    obtain ⟨-, hwidth', hslope', hm', hn'⟩ := entries_of_segments hlength hsegments hcount hg' axis
    -- The row for the point between the two segments.
    have hvalues : (points.map axis.of).length = chords.length := by
      rw [List.length_map, hlength]
    have hrow := axisMoments_eq hvalues (by omega) hpos (hlength.symm ▸ hk) rfl
    simp only [hlength, hwidth, hwidth', hslope, hslope', hm, hm', hn'] at hrow
    rw [Segment.slope_stop hh, Segment.slope_start hh', ← hn, hm']
    linear_combination hrow / 6
  · intro k g g' axis hg hg'
    rw [hcircle] at hg'
    obtain ⟨-, -, -, -, hn⟩ := entries_of_segments hlength hsegments hcount hg axis
    obtain ⟨-, -, -, hm', -⟩ := entries_of_segments hlength hsegments hcount hg' axis
    rw [Segment.bend_stop (width_ne_zero hlength hsegments hpos hg),
      Segment.bend_start (width_ne_zero hlength hsegments hpos hg'), ← hn, hm']

theorem circular_of_segments (hpoints : 0 < points.length) (htotal : c.length = chords.sum)
    (hlast : (c.rest.getLast?.getD c.first).stop = c.length) {lap : α → α}
    (hlap : LapFraction lap) : c.Circular lap := by
  have htotal_pos : 0 < c.length := by
    rw [htotal]
    exact List.sum_pos _ hpos (List.ne_nil_of_length_pos (hlength.symm ▸ hpoints))
  have hchain : c.segments.IsChain fun g g' => g.stop = g'.start := by
    rw [hsegments]
    exact isChain_segments hlength
  have hfirst : c.first.start = 0 := by
    have hg : (Spline.segments points chords)[0]? = some c.first := by
      rw [← hsegments]
      rfl
    obtain ⟨-, hstart, -⟩ := (getElem?_segments hlength).mp hg
    rw [hstart, List.take_zero, List.sum_nil]
  have hspec : ∀ t, c.segmentAt (lap t * c.length) ∈ c.segments ∧
      (c.segmentAt (lap t * c.length)).start ≤ lap t * c.length ∧
      lap t * c.length < (c.segmentAt (lap t * c.length)).stop := by
    intro t
    refine pick_spec hchain ?_ ?_
    · rw [hfirst]
      exact mul_nonneg (hlap.nonneg t) htotal_pos.le
    · rw [hlast]
      exact mul_lt_of_lt_one_left htotal_pos (hlap.lt_one t)
  refine ⟨fun t => (hspec t).1, fun t => (hspec t).2.1, fun t => (hspec t).2.2, fun t => ?_,
    fun t m => ?_⟩
  · rw [Curve.position, if_neg (not_le.mpr htotal_pos)]
  · rw [Curve.position, Curve.position, hlap.add_int]

end Loop

/-- Through a loop of three points or more with positive distances there is a curve.  It goes
through the points, it is smooth, and it closes: whatever takes whole laps away, the point at a
lap fraction is on the segment around the lap position.  None of this divides by zero. -/
theorem exists_smooth {α : Type} [Field α] [LinearOrder α] [IsStrictOrderedRing α]
    {points : List (Point α)} {chords : List α} (hcount : 3 ≤ points.length)
    (hlength : chords.length = points.length) (hpos : ∀ h ∈ chords, 0 < h) :
    ∃ c, Curve.through points chords = some c ∧ c.Interpolates points chords ∧ c.Smooth ∧
      ∀ lap, LapFraction lap → c.Circular lap ∧ c.Defined points chords lap := by
  have hpoints : 0 < points.length := Nat.lt_of_lt_of_le (by decide) hcount
  obtain ⟨c, hthrough, hsegments, htotal, hlast⟩ := through_eq hpoints hlength
  refine ⟨c, hthrough, interpolates_of_segments hlength hsegments hpos,
    smooth_of_segments hlength hsegments hpos hcount, fun lap hlap => ?_⟩
  have hcircular := circular_of_segments hlength hsegments hpos hpoints htotal hlast hlap
  refine ⟨hcircular, ?_, fun t => position_checked ?_⟩
  · rw [through_checked hcount hlength hpos, hthrough, Option.map_some]
  · obtain ⟨k, hk⟩ := List.mem_iff_getElem?.mp (hcircular.picked t)
    exact width_ne_zero hlength hsegments hpos hk

/-- The curve around a right triangle. -/
theorem exists_smooth_triangle :
    let points : List (Point ℚ) := [⟨0, 0, 0⟩, ⟨3, 0, 0⟩, ⟨3, 4, 0⟩]
    ∃ c, Curve.through points [3, 4, 5] = some c ∧ c.Interpolates points [3, 4, 5] ∧ c.Smooth ∧
      c.Circular Int.fract ∧ c.Defined points [3, 4, 5] Int.fract := by
  intro points
  have hpos : ∀ h ∈ ([3, 4, 5] : List ℚ), 0 < h := by decide
  obtain ⟨c, hthrough, hinterpolates, hsmooth, hlaps⟩ :=
    exists_smooth (show 3 ≤ points.length by decide) (show _ = points.length from rfl) hpos
  exact ⟨c, hthrough, hinterpolates, hsmooth, hlaps _ lapFraction_fract⟩

end Curve

end Patchbay.Spline
