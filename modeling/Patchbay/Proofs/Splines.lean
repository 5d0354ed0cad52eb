import Patchbay.Spline.Closed
/-!
When there is a curve.

Through at least one point there is always a closed spline: a loop keeps its
first point, each point of it starts a chord, and the second derivatives are
as many as the points, whatever the arithmetic makes of them.
-/

namespace Patchbay.Spline

section Counting
variable {β : Type}

theorem closed_ne_nil {xs : List β} (h : xs ≠ []) : closed xs ≠ [] := by
  simp [closed, h]

/-- There is a step from each entry of a ring to the next one. -/
theorem steps_closed_ne_nil {xs : List β} (h : xs ≠ []) : steps (closed xs) ≠ [] := by
  cases xs with
  | nil => exact absurd rfl h
  | cons x xs =>
      intro hnil
      rcases List.zip_eq_nil_iff.mp hnil with hclosed | htail
      · exact closed_ne_nil h hclosed
      · simp [closed] at htail

theorem rotated_ne_nil {xs : List β} (h : xs ≠ []) : rotated xs ≠ [] := by
  rw [rotated, List.getLast?_eq_some_getLast h]
  simp

theorem loop_ne_nil {points : List Vec3} (h : points ≠ []) : loop points ≠ [] := by
  cases points with
  | nil => exact absurd rfl h
  | cons p points => exact List.cons_ne_nil _ _

theorem steps_knotsFrom_ne_nil [Add β] {lengths : List β} (h : lengths ≠ []) (start : β) :
    steps (knotsFrom start lengths) ≠ [] := by
  cases lengths with
  | nil => exact absurd rfl h
  | cons x lengths => cases lengths <;> simp [steps, knotsFrom]

end Counting

variable {α : Type} [Add α] [Sub α] [Mul α] [Div α] [Neg α] [OfNat α 0] [OfNat α 1]
  [OfNat α 2] [OfNat α 6]

omit [OfNat α 0] [OfNat α 1] [OfNat α 2] [OfNat α 6] [Add α] [Neg α] in
theorem solve_ne_nil {rows : List (Row α)} (h : rows ≠ []) : solve rows ≠ [] := by
  cases rows with
  | nil => exact absurd rfl h
  | cons row rows =>
      rw [solve]
      cases eliminate (row.sup / row.diag) (row.rhs / row.diag) rows <;> simp [substitute]

omit [OfNat α 2] [OfNat α 6] in
theorem solveCyclic_ne_nil {rows : List (Row α)} (h : rows ≠ []) : solveCyclic rows ≠ [] := by
  cases rows with
  | nil => exact absurd rfl h
  | cons row rows =>
      have hopened : ∀ shift alpha beta : α, opened shift alpha beta (row :: rows) ≠ [] := by
        intro shift alpha beta hnil
        have := congrArg List.length hnil
        simp [opened] at this
      have hcorrection : ∀ (shift alpha : α) (rows : List (Row α)), rows ≠ [] →
          correction shift alpha rows ≠ [] := by
        intro shift alpha rows hne hnil
        have := congrArg List.length hnil
        simp only [correction, List.length_modify, List.length_map, List.length_nil] at this
        exact hne (List.length_eq_zero_iff.mp this)
      obtain ⟨last, hlast⟩ := List.getLast?_isSome.mpr h |> Option.isSome_iff_exists.mp
      unfold solveCyclic
      rw [List.head?_cons, hlast]
      simp only [ne_eq, List.zipWith_eq_nil_iff, not_or]
      exact ⟨solve_ne_nil (hopened _ _ _), solve_ne_nil (hcorrection _ _ _ (hopened _ _ _))⟩

theorem axisMoments_ne_nil {widths values : List α} (hw : widths ≠ [])
    (hv : steps values ≠ []) : axisMoments widths values ≠ [] := by
  refine solveCyclic_ne_nil ?_
  have hslopes : ∀ f : α × α × α → α, (widths.zip (steps values)).map f ≠ [] := by
    intro f
    simp [List.zip_eq_nil_iff, hw, hv]
  simp only [momentRows, ne_eq, List.map_eq_nil_iff, List.zip_eq_nil_iff, not_or]
  refine ⟨⟨rotated_ne_nil hw, hw⟩, ?_, rotated_ne_nil (hslopes _)⟩
  simp [hw, hv]

theorem moments_ne_nil {widths : List α} {points : List (Point α)} (hw : widths ≠ [])
    (hp : points ≠ []) : moments widths points ≠ [] := by
  have haxis : ∀ f : Point α → α, axisMoments widths ((closed points).map f) ≠ [] := by
    intro f
    refine axisMoments_ne_nil hw ?_
    have hclosed : (closed points).map f = closed (points.map f) := by
      cases points <;> simp [closed]
    rw [hclosed]
    exact steps_closed_ne_nil (by simpa using hp)
  unfold moments
  split
  · simpa using hp
  · simp [List.zip_eq_nil_iff, haxis]

/-- There is a segment for each chord. -/
theorem segments_ne_nil {points : List (Point α)} {chords : List α} (hp : points ≠ [])
    (hc : chords ≠ []) : segments points chords ≠ [] := by
  have hknots : steps (knotsFrom 0 chords) ≠ [] := steps_knotsFrom_ne_nil hc 0
  have hwidths : ∀ f : α × α → α, (steps (knotsFrom 0 chords)).map f ≠ [] := by
    intro f
    simpa using hknots
  simp only [segments, ne_eq, List.map_eq_nil_iff, List.zip_eq_nil_iff, not_or]
  exact ⟨hknots, steps_closed_ne_nil hp,
    steps_closed_ne_nil (moments_ne_nil (hwidths _) hp)⟩

theorem Curve.exists_through {points : List (Point α)} {chords : List α} (hp : points ≠ [])
    (hc : chords ≠ []) : ∃ curve, Curve.through points chords = some curve := by
  obtain ⟨first, rest, hsegments⟩ := List.exists_cons_of_ne_nil (segments_ne_nil hp hc)
  refine ⟨⟨first, rest, (rest.getLast?.getD first).stop⟩, ?_⟩
  rw [Curve.through, hsegments]

end Patchbay.Spline

namespace Patchbay.ClosedSpline

open Spline

/-- There is a curve through any points but none at all. -/
theorem exists_through {points : List Vec3} (h : points ≠ []) :
    ∃ curve, through points = some curve := by
  have hloop : (loop points).map widen ≠ [] := by simpa using loop_ne_nil h
  refine Curve.exists_through hloop ?_
  simpa using steps_closed_ne_nil hloop

end Patchbay.ClosedSpline
