import Patchbay.Spline.Cyclic
import Patchbay.Value.Vector
import Patchbay.Number.Double
/-!
Closed splines through points.

A loop of points is a list in which no point equals the next one and the
last does not equal the first, unless there is only one.  The curve through
a loop has one cubic per chord, with the chord length as its parameter; the
second derivatives at the points make neighbouring cubics agree to second
order, also where the loop closes.  Loops of one or two points have second
derivatives zero: the curve stays at the point or goes back and forth.

The arithmetic of the curve is a parameter, like that of the solver; the
curves of the program are made of 64-bit floats.
-/

namespace Patchbay.Spline

variable {α : Type} [Add α] [Sub α] [Mul α] [Div α] [Neg α] [OfNat α 0] [OfNat α 1]
  [OfNat α 2] [OfNat α 6]

/-- Three coordinates. -/
structure Point (α : Type) where
  x : α
  y : α
  z : α

/-! ## Rings -/

/-- A list followed by its first entry once more. -/
def closed {β : Type} (xs : List β) : List β := xs ++ xs.head?.toList

/-- Each entry with the next one. -/
def steps {β : Type} (xs : List β) : List (β × β) := xs.zip xs.tail

/-- The list with its last entry in front. -/
def rotated {β : Type} (xs : List β) : List β := xs.getLast?.toList ++ xs.dropLast

/-- The sums of the lengths up to each place, from `start` on. -/
def knotsFrom (start : α) : List α → List α
  | [] => [start]
  | length :: rest => start :: knotsFrom (start + length) rest

/-! ## Second derivatives -/

/-- The rows for the second derivatives at the points of a ring, given the widths of its
segments and one coordinate of its points, the first one once more at the end. -/
def momentRows (widths values : List α) : List (Row α) :=
  let slopes := (widths.zip (steps values)).map fun (h, v, w) => (w - v) / h
  (((rotated widths).zip widths).zip (slopes.zip (rotated slopes))).map
    fun ((before, behind), (slope, slopeBefore)) =>
      ⟨before, 2 * (before + behind), behind, 6 * (slope - slopeBefore)⟩

/-- The second derivatives of one coordinate. -/
def axisMoments (widths values : List α) : List α := solveCyclic (momentRows widths values)

/-- The second derivatives at the points of a loop. -/
def moments (widths : List α) (points : List (Point α)) : List (Point α) :=
  if points.length < 3 then points.map fun _ => ⟨0, 0, 0⟩
  else
    let axis (f : Point α → α) := axisMoments widths ((closed points).map f)
    ((axis Point.x).zip ((axis Point.y).zip (axis Point.z))).map fun (x, y, z) => ⟨x, y, z⟩

/-! ## Segments -/

/-- A cubic over one chord. -/
structure Segment (α : Type) where
  start : α
  stop : α
  startPoint : Point α
  stopPoint : Point α
  startMoment : Point α
  stopMoment : Point α

/-- The cubic of one coordinate, by the values and the second derivatives at its ends. -/
def cubic (start stop p q m n s : α) : α :=
  let h := stop - start
  let a := stop - s
  let b := s - start
  m * a * a * a / (6 * h) + n * b * b * b / (6 * h) + (p / h - m * h / 6) * a +
    (q / h - n * h / 6) * b

def Segment.eval (g : Segment α) (s : α) : Point α :=
  let axis (f : Point α → α) :=
    cubic g.start g.stop (f g.startPoint) (f g.stopPoint) (f g.startMoment) (f g.stopMoment) s
  ⟨axis Point.x, axis Point.y, axis Point.z⟩

/-- The segments of the curve through a loop, given the lengths of its chords. -/
def segments (points : List (Point α)) (chords : List α) : List (Segment α) :=
  let knots := knotsFrom 0 chords
  let widths := (steps knots).map fun (a, b) => b - a
  ((steps knots).zip ((steps (closed points)).zip (steps (closed (moments widths points))))).map
    fun ((start, stop), (p, q), (m, n)) => ⟨start, stop, p, q, m, n⟩

/-- The segment for a place on the curve: the last one that starts at or before it. -/
def pick [LE α] [DecidableLE α] (s : α) : Segment α → List (Segment α) → Segment α
  | g, [] => g
  | g, next :: rest => if next.start ≤ s then pick s next rest else g

/-! ## Curves -/

/-- A curve through a loop of points, as a row of cubics; there is at least one. -/
structure Curve (α : Type) where
  first : Segment α
  rest : List (Segment α)
  length : α

namespace Curve

/-- The curve through a loop, given the lengths of its chords; there is none through no points. -/
def through (points : List (Point α)) (chords : List α) : Option (Curve α) :=
  match Spline.segments points chords with
  | [] => none
  | first :: rest => some ⟨first, rest, (rest.getLast?.getD first).stop⟩

variable [LE α] [DecidableLE α]

/-- The segment for a place on the curve. -/
def segmentAt (c : Curve α) (s : α) : Segment α := pick s c.first c.rest

/-- The point at a lap fraction, of which `lap` takes whole laps away.  A curve without a length
is its first point. -/
def position (lap : α → α) (c : Curve α) (t : α) : Point α :=
  if c.length ≤ 0 then c.first.startPoint
  else
    let s := lap t * c.length
    (c.segmentAt s).eval s

end Curve

/-! ## Loops of points -/

/-- The points behind `last` without those that equal the point before them. -/
def dropRepeats (last : Vec3) : List Vec3 → List Vec3
  | [] => []
  | p :: rest => if last.same p then dropRepeats last rest else p :: dropRepeats p rest

/-- The loop through the given points. -/
def loop : List Vec3 → List Vec3
  | [] => []
  | p :: rest => p :: ((dropRepeats p rest).reverse.dropWhile (·.same p)).reverse

end Patchbay.Spline

namespace Patchbay

open Spline

/-- A curve of 64-bit floats. -/
abbrev ClosedSpline := Curve Float

namespace ClosedSpline

/-- A point with 64-bit coordinates. -/
def widen (v : Vec3) : Point Float :=
  ⟨Double.ofSingle v.x, Double.ofSingle v.y, Double.ofSingle v.z⟩

def narrow (p : Point Float) : Vec3 :=
  ⟨Double.toSingle p.x, Double.toSingle p.y, Double.toSingle p.z⟩

def distance (p q : Point Float) : Float :=
  let square (x : Float) := x * x
  (square (p.x - q.x) + square (p.y - q.y) + square (p.z - q.z)).sqrt

/-- The curve through a list of points; there is none through no points. -/
def through (points : List Vec3) : Option ClosedSpline :=
  let points := (loop points).map widen
  Curve.through points ((steps (closed points)).map fun (p, q) => distance p q)

/-- The point at a lap fraction; whole laps do not count. -/
def position (c : ClosedSpline) (t : Single) : Vec3 :=
  narrow (Curve.position Double.lapFraction c (Double.ofSingle t))

end ClosedSpline

end Patchbay
