/-!
Cyclic tridiagonal systems.

A row ties an unknown to its two neighbours; the first and the last unknown
are neighbours too.  `solve` ignores the two coefficients that close the
ring: it eliminates downwards and substitutes upwards.  `solveCyclic`
changes the first and the last diagonal entry so that the ring opens,
solves for the right-hand side and for the correction, and subtracts the
correction once.

The arithmetic is a parameter, so that the laws can be read in a field and
the program run on floats.
-/

namespace Patchbay.Spline

variable {α : Type} [Add α] [Sub α] [Mul α] [Div α] [Neg α] [OfNat α 0] [OfNat α 1]

/-- One equation: `sub` times the unknown before, `diag` times the row's own and `sup` times
the unknown behind make `rhs`. -/
structure Row (α : Type) where
  sub : α
  diag : α
  sup : α
  rhs : α

/-! ## Open systems -/

/-- An unknown from its eliminated row, `x + c * next = d`, in front of the unknowns behind it. -/
def substitute (c d : α) (xs : List α) : List α :=
  match xs with
  | [] => [d]
  | x :: _ => (d - c * x) :: xs

/-- The unknowns of the rows behind an eliminated row `x + c * next = d`. -/
def eliminate (c d : α) : List (Row α) → List α
  | [] => []
  | row :: rest =>
    let pivot := row.diag - row.sub * c
    let c' := row.sup / pivot
    let d' := (row.rhs - row.sub * d) / pivot
    substitute c' d' (eliminate c' d' rest)

/-- The unknowns of an open system; the first `sub` and the last `sup` do not count. -/
def solve : List (Row α) → List α
  | [] => []
  | row :: rest =>
    let c := row.sup / row.diag
    let d := row.rhs / row.diag
    substitute c d (eliminate c d rest)

/-! ## Closed systems -/

/-- The entry at the front; of nothing it is zero. -/
def front (xs : List α) : α := xs.head?.getD 0

/-- The entry at the end; of nothing it is zero. -/
def back (xs : List α) : α := xs.getLast?.getD 0

/-- The rows of the open system: `shift` is taken from the first diagonal entry, and what
makes up for it from the last. -/
def opened (shift alpha beta : α) (rows : List (Row α)) : List (Row α) :=
  (rows.modify 0 fun r => { r with diag := r.diag - shift }).modify (rows.length - 1) fun r =>
    { r with diag := r.diag - alpha * beta / shift }

/-- The same rows with the right-hand side of the correction. -/
def correction (shift alpha : α) (rows : List (Row α)) : List (Row α) :=
  ((rows.map fun r => { r with rhs := 0 }).modify 0 fun r => { r with rhs := shift }).modify
    (rows.length - 1) fun r => { r with rhs := alpha }

/-- The unknowns of a closed system of at least two rows. -/
def solveCyclic (rows : List (Row α)) : List α :=
  match rows.head?, rows.getLast? with
  | some first, some last =>
    let shift := -first.diag
    let open_ := opened shift last.sup first.sub rows
    let xs := solve open_
    let zs := solve (correction shift last.sup open_)
    let factor := (front xs + first.sub * back xs / shift) /
      (1 + front zs + first.sub * back zs / shift)
    xs.zipWith (fun x z => x - factor * z) zs
  | _, _ => []

end Patchbay.Spline
