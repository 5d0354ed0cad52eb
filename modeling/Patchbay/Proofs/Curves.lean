import Patchbay.Proofs.Elimination
import Patchbay.Proofs.Rings
/-!
The cubics of a curve.

What a curve is made of is told place by place: the rows of the system for
the second derivatives, what the solution of it says about three points in a
row (`axisMoments_eq`), and the segment over each chord
(`getElem?_segments`).  The segments touch, so the one that is picked for a
place between the first knot and the last contains it (`pick_spec`).

A point is handled one coordinate at a time (`Axis`), since nothing in the
curve mixes coordinates.
-/

namespace Patchbay.Spline

/-! ## Coordinates -/

/-- One of the three coordinates. -/
inductive Axis where
  | x
  | y
  | z

/-- The coordinate of a point. -/
def Axis.of {β : Type} : Axis → Point β → β
  | x => Point.x
  | y => Point.y
  | z => Point.z

theorem Axis.ext {β : Type} {p q : Point β} (h : ∀ axis : Axis, axis.of p = axis.of q) : p = q := by
  obtain ⟨x, y, z⟩ := p
  obtain ⟨x', y', z'⟩ := q
  have hx : x = x' := h .x
  have hy : y = y' := h .y
  have hz : z = z' := h .z
  rw [hx, hy, hz]

section Maps
variable {β γ : Type} (f : β → γ)

def Point.map (p : Point β) : Point γ := ⟨f p.x, f p.y, f p.z⟩

def Segment.map (g : Segment β) : Segment γ :=
  ⟨f g.start, f g.stop, g.startPoint.map f, g.stopPoint.map f, g.startMoment.map f,
    g.stopMoment.map f⟩

def Curve.map (c : Curve β) : Curve γ := ⟨c.first.map f, c.rest.map (Segment.map f), f c.length⟩

@[simp] theorem Axis.of_map (axis : Axis) (p : Point β) : axis.of (p.map f) = f (axis.of p) := by
  cases axis <;> rfl

end Maps

/-- The segments of a curve; there is at least one. -/
def Curve.segments {β : Type} (c : Curve β) : List (Segment β) := c.first :: c.rest

section Arithmetic
variable {α : Type} [Add α] [Sub α] [Mul α] [Div α] [Neg α] [OfNat α 0] [OfNat α 1]
  [OfNat α 2] [OfNat α 6]

omit [Neg α] [OfNat α 0] [OfNat α 1] [OfNat α 2] in
/-- Every coordinate of a segment is a cubic of its own. -/
theorem Axis.of_eval (axis : Axis) (g : Segment α) (s : α) :
    axis.of (g.eval s) =
      cubic g.start g.stop (axis.of g.startPoint) (axis.of g.stopPoint) (axis.of g.startMoment)
        (axis.of g.stopMoment) s := by
  cases axis <;> rfl

/-- Every coordinate of a loop has second derivatives of its own. -/
theorem moments_eq {points : List (Point α)} (h : 3 ≤ points.length) (widths : List α) :
    let axis := fun axis : Axis => axisMoments widths ((closed points).map axis.of)
    moments widths points =
      ((axis .x).zip ((axis .y).zip (axis .z))).map fun (x, y, z) => ⟨x, y, z⟩ :=
  if_neg (Nat.not_lt.mpr h)

/-- A segment leads from one point of the ring to the next one. -/
theorem mem_steps_of_mem_segments {points : List (Point α)} {chords : List α} {g : Segment α}
    (h : g ∈ segments points chords) : (g.startPoint, g.stopPoint) ∈ steps (closed points) := by
  obtain ⟨⟨⟨start, stop⟩, ⟨p, q⟩, m, n⟩, hzip, rfl⟩ := List.mem_map.mp h
  exact (List.of_mem_zip (List.of_mem_zip hzip).2).1

/-- A curve is made of the segments through its loop. -/
theorem Curve.segments_of_through {points : List (Point α)} {chords : List α} {c : Curve α}
    (h : Curve.through points chords = some c) :
    c.segments = Spline.segments points chords := by
  rw [Curve.through] at h
  split at h
  · cases h
  · rename_i first rest hsegments
    cases h
    exact hsegments.symm

end Arithmetic

section Field
variable {α : Type} [Field α]

/-! ## Second derivatives -/

/-- The slope of the chord from one value of a ring to the next. -/
def chordSlope (widths values : List α) (i : Nat) : α :=
  (entry values ((i + 1) % values.length) - entry values i) / entry widths i

theorem length_momentRows {widths values : List α} (h : values.length = widths.length) :
    (momentRows widths (closed values)).length = widths.length := by
  simp only [momentRows, List.length_map, List.length_zip, length_rotated, length_steps_closed, h,
    Nat.min_self]

theorem getElem?_slopes {widths values : List α} (h : values.length = widths.length) {i : Nat}
    (hi : i < widths.length) :
    ((widths.zip (steps (closed values))).map fun (h, v, w) => (w - v) / h)[i]? =
      some (chordSlope widths values i) := by
  have hn : 0 < values.length := Nat.lt_of_le_of_lt (Nat.zero_le _) (h ▸ hi)
  have hstep : (steps (closed values))[i]? =
      some (entry values i, entry values ((i + 1) % values.length)) :=
    (getElem?_steps_closed (h ▸ hi)).mpr
      ⟨getElem?_eq_entry (h ▸ hi), getElem?_eq_entry (Nat.mod_lt _ hn)⟩
  rw [List.getElem?_map, getElem?_zip (getElem?_eq_entry hi) hstep]
  rfl

/-- The row for a point of a ring: the widths before and behind it, and the slopes there. -/
theorem getElem?_momentRows {widths values : List α} (h : values.length = widths.length) {i : Nat}
    (hi : i < widths.length) :
    let before := (i + widths.length - 1) % widths.length
    (momentRows widths (closed values))[i]? =
      some ⟨entry widths before, 2 * (entry widths before + entry widths i), entry widths i,
        6 * (chordSlope widths values i - chordSlope widths values before)⟩ := by
  intro before
  have hbefore : before < widths.length := Nat.mod_lt _ (Nat.lt_of_le_of_lt (Nat.zero_le _) hi)
  set slopes := (widths.zip (steps (closed values))).map fun (h, v, w) => (w - v) / h with hslopes
  have hcount : slopes.length = widths.length := by
    rw [hslopes, List.length_map, List.length_zip, length_steps_closed, h, Nat.min_self]
  have hwidth : (rotated widths)[i]? = some (entry widths before) :=
    (getElem?_rotated hi).trans (getElem?_eq_entry hbefore)
  have hslope : (rotated slopes)[i]? = some (chordSlope widths values before) := by
    rw [getElem?_rotated (hcount ▸ hi), hcount]
    exact getElem?_slopes h hbefore
  have hwidths := getElem?_zip hwidth (getElem?_eq_entry hi)
  have hpair := getElem?_zip (getElem?_slopes h hi) hslope
  rw [momentRows, List.getElem?_map, getElem?_zip hwidths hpair]
  rfl

theorem length_axisMoments {widths values : List α} (h : values.length = widths.length) :
    (axisMoments widths (closed values)).length = widths.length := by
  rw [axisMoments, length_solveCyclic, length_momentRows h]

/-- The second derivatives of a loop of three points or more are solved coordinate by
coordinate. -/
theorem getElem?_moments {widths : List α} {points : List (Point α)} (hcount : 3 ≤ points.length)
    (h : widths.length = points.length) {i : Nat} (hi : i < points.length) :
    ∃ m, (moments widths points)[i]? = some m ∧ ∀ axis : Axis,
      axis.of m = entry (axisMoments widths (closed (points.map axis.of))) i := by
  have haxis : ∀ axis : Axis, (axisMoments widths ((closed points).map axis.of))[i]? =
      some (entry (axisMoments widths (closed (points.map axis.of))) i) := by
    intro axis
    rw [← closed_map]
    apply getElem?_eq_entry
    rwa [length_axisMoments (by rw [List.length_map, h]), h]
  rw [moments_eq hcount, List.getElem?_map,
    getElem?_zip (haxis .x) (getElem?_zip (haxis .y) (haxis .z))]
  exact ⟨_, rfl, fun axis => by cases axis <;> rfl⟩

/-! ## Segments -/

theorem length_moments {widths : List α} {points : List (Point α)}
    (h : widths.length = points.length) : (moments widths points).length = points.length := by
  rcases Nat.lt_or_ge points.length 3 with hfew | hcount
  · rw [moments, if_pos hfew, List.length_map]
  · have haxis : ∀ axis : Axis,
        (axisMoments widths ((closed points).map axis.of)).length = points.length := by
      intro axis
      rw [← closed_map, length_axisMoments (by rw [List.length_map, h]), h]
    rw [moments_eq hcount, List.length_map, List.length_zip, List.length_zip, haxis, haxis, haxis,
      Nat.min_self, Nat.min_self]

theorem length_segments {points : List (Point α)} {chords : List α}
    (h : chords.length = points.length) : (segments points chords).length = points.length := by
  simp only [segments, widths_knotsFrom, List.length_map, List.length_zip, length_steps_knotsFrom,
    length_steps_closed, length_moments h, h, Nat.min_self]

/-- The segment over a chord: between the sums of the chords before it, with the points and the
second derivatives of its two ends.  The end of the last chord is the first point. -/
theorem getElem?_segments {points : List (Point α)} {chords : List α}
    (h : chords.length = points.length) {k : Nat} {g : Segment α} :
    (segments points chords)[k]? = some g ↔
      k < points.length ∧ g.start = (chords.take k).sum ∧ g.stop = (chords.take (k + 1)).sum ∧
      points[k]? = some g.startPoint ∧ points[(k + 1) % points.length]? = some g.stopPoint ∧
      (moments chords points)[k]? = some g.startMoment ∧
      (moments chords points)[(k + 1) % points.length]? = some g.stopMoment := by
  rcases Nat.lt_or_ge k points.length with hk | hk
  swap
  · rw [List.getElem?_eq_none ((length_segments h).trans_le hk)]
    exact ⟨nofun, fun hg => absurd hg.1 (Nat.not_lt.mpr hk)⟩
  have hm := length_moments h
  have hsteps := getElem?_steps_knotsFrom (0 : α) (h.symm ▸ hk)
  rw [zero_add, zero_add] at hsteps
  simp only [segments, widths_knotsFrom, List.getElem?_map, Option.map_eq_some_iff]
  constructor
  · rintro ⟨⟨⟨start, stop⟩, ⟨p, q⟩, m, n⟩, hzip, rfl⟩
    obtain ⟨hknots, hzip⟩ := List.getElem?_zip_eq_some.mp hzip
    obtain ⟨hpoints, hmoments⟩ := List.getElem?_zip_eq_some.mp hzip
    rw [hsteps] at hknots
    cases hknots
    obtain ⟨hp, hq⟩ := (getElem?_steps_closed hk).mp hpoints
    obtain ⟨hm, hn⟩ := (getElem?_steps_closed (hm.symm ▸ hk)).mp hmoments
    rw [length_moments h] at hn
    exact ⟨hk, rfl, rfl, hp, hq, hm, hn⟩
  · obtain ⟨start, stop, p, q, m, n⟩ := g
    rintro ⟨-, rfl, rfl, hp, hq, hstart, hstop⟩
    refine ⟨((_, _), (p, q), m, n), ?_, rfl⟩
    rw [List.getElem?_zip_eq_some, List.getElem?_zip_eq_some]
    refine ⟨hsteps, (getElem?_steps_closed hk).mpr ⟨hp, hq⟩,
      (getElem?_steps_closed (hm.symm ▸ hk)).mpr ⟨hstart, ?_⟩⟩
    rwa [hm]

/-- The segments touch, each starts where the one before it stops. -/
theorem isChain_segments {points : List (Point α)} {chords : List α}
    (h : chords.length = points.length) :
    (segments points chords).IsChain fun g g' => g.stop = g'.start := by
  rw [List.isChain_iff_getElem]
  intro i hi
  obtain ⟨-, -, hstop, -⟩ :=
    (getElem?_segments h).mp (List.getElem?_eq_getElem (Nat.lt_of_succ_lt hi))
  obtain ⟨-, hstart, -⟩ := (getElem?_segments h).mp (List.getElem?_eq_getElem hi)
  rw [hstop, hstart]

/-- Through a loop with a point there is a curve; it is as long as all chords together. -/
theorem Curve.through_eq {points : List (Point α)} {chords : List α} (hpoints : 0 < points.length)
    (h : chords.length = points.length) :
    ∃ c, Curve.through points chords = some c ∧ c.segments = Spline.segments points chords ∧
      c.length = chords.sum ∧ (c.rest.getLast?.getD c.first).stop = c.length := by
  cases hsegments : Spline.segments points chords with
  | nil =>
      have hlength := length_segments h
      rw [hsegments, List.length_nil] at hlength
      omega
  | cons first rest =>
      refine ⟨⟨first, rest, (rest.getLast?.getD first).stop⟩, ?_, rfl, ?_, rfl⟩
      · rw [Curve.through, hsegments]
      · have hlast : (Spline.segments points chords)[points.length - 1]? =
            some (rest.getLast?.getD first) := by
          rw [← length_segments h, ← List.getLast?_eq_getElem?, hsegments, List.getLast?_cons]
        obtain ⟨-, -, hstop, -⟩ := (getElem?_segments h).mp hlast
        rw [hstop, List.take_of_length_le (by omega)]

omit [Field α] in
/-- The segment that is picked for a place between the first knot and the last contains it. -/
theorem pick_spec [LinearOrder α] {s : α} {g : Segment α} {rest : List (Segment α)}
    (hchain : (g :: rest).IsChain fun g g' => g.stop = g'.start) (hstart : g.start ≤ s)
    (hstop : s < (rest.getLast?.getD g).stop) :
    pick s g rest ∈ g :: rest ∧ (pick s g rest).start ≤ s ∧ s < (pick s g rest).stop := by
  induction rest generalizing g with
  | nil => exact ⟨List.mem_singleton_self g, hstart, hstop⟩
  | cons next rest ih =>
      obtain ⟨htouch, hchain⟩ := List.isChain_cons_cons.mp hchain
      rw [List.getLast?_cons, Option.getD_some] at hstop
      rw [pick]
      split
      · rename_i hnext
        obtain ⟨hmem, hbounds⟩ := ih hchain hnext hstop
        exact ⟨List.mem_cons_of_mem g hmem, hbounds⟩
      · rename_i hnext
        exact ⟨List.mem_cons_self, hstart, htouch ▸ not_le.mp hnext⟩

end Field

/-! ## Positive widths -/

section Ordered
variable {α : Type} [Field α] [LinearOrder α] [IsStrictOrderedRing α]

/-- The row for a point weighs it by twice the widths around it, its neighbours by one of them
each. -/
theorem dominant_momentRows {widths values : List α} (h : values.length = widths.length)
    (hpos : ∀ w ∈ widths, 0 < w) : ∀ row ∈ momentRows widths (closed values), row.Dominant := by
  intro row hrow
  obtain ⟨i, hi⟩ := List.mem_iff_getElem?.mp hrow
  have hlt : i < widths.length := by
    rw [← length_momentRows h]
    exact (List.getElem?_eq_some_iff.mp hi).1
  rw [getElem?_momentRows h hlt, Option.some.injEq] at hi
  subst hi
  have hwidth : ∀ j, j < widths.length → 0 < entry widths j :=
    fun j hj => hpos _ (List.mem_of_getElem? (getElem?_eq_entry hj))
  have hbefore := hwidth _
    (Nat.mod_lt (i + widths.length - 1) (Nat.lt_of_le_of_lt (Nat.zero_le _) hlt))
  have hbehind := hwidth i hlt
  exact ⟨hbefore, hbehind, by dsimp only; linarith⟩

/-- What the second derivatives at three points in a row have to do with the slopes of the two
chords between them. -/
theorem axisMoments_eq {widths values : List α} (h : values.length = widths.length)
    (hcount : 2 ≤ widths.length) (hpos : ∀ w ∈ widths, 0 < w) {k l : Nat} (hk : k < widths.length)
    (hl : (k + 1) % widths.length = l) :
    let m := entry (axisMoments widths (closed values))
    entry widths k * m k + 2 * (entry widths k + entry widths l) * m l +
        entry widths l * m ((l + 1) % widths.length) =
      6 * (chordSlope widths values l - chordSlope widths values k) := by
  intro m
  have hlt : l < widths.length := hl ▸ Nat.mod_lt _ (Nat.lt_of_le_of_lt (Nat.zero_le _) hk)
  have hbefore : (l + widths.length - 1) % widths.length = k := hl ▸ before_next hk
  have hrow := getElem?_momentRows h hlt
  simp only [hbefore] at hrow
  have hside := closedSide_solveCyclic (by rwa [length_momentRows h])
    (dominant_momentRows h hpos) hrow
  simp only [Row.closedSide, length_solveCyclic, length_momentRows h, hbefore] at hside
  exact hside

end Ordered

end Patchbay.Spline
