import Mathlib.Algebra.BigOperators.Group.List.Basic
import Mathlib.Algebra.Group.Basic
import Patchbay.Spline.Closed
/-!
Lists that close to a ring.

`closed` repeats the first entry behind the last, `rotated` puts the last one
in front, and `steps` pairs each entry with the next.  What stands at a place
of them is told by the number of the place modulo the length of the list.
Knots are the sums of the first lengths, so the steps between them give the
lengths back.
-/

namespace Patchbay.Spline

/-! ## Places -/

section Places
variable {β : Type} {xs : List β}

theorem length_closed (h : xs ≠ []) : (closed xs).length = xs.length + 1 := by
  cases xs with
  | nil => exact absurd rfl h
  | cons x xs => simp [closed]

theorem getElem?_closed {i : Nat} (h : i ≤ xs.length) : (closed xs)[i]? = xs[i % xs.length]? := by
  rcases Nat.lt_or_eq_of_le h with hlt | rfl
  · rw [closed, List.getElem?_append_left hlt, Nat.mod_eq_of_lt hlt]
  · rw [closed, List.getElem?_append_right (Nat.le_refl _), Nat.sub_self, Nat.mod_self,
      ← List.head?_eq_getElem?]
    cases xs <;> rfl

theorem length_rotated (xs : List β) : (rotated xs).length = xs.length := by
  cases xs with
  | nil => rfl
  | cons x xs => simp [rotated, List.getLast?_cons]

theorem getElem?_rotated {i : Nat} (h : i < xs.length) :
    (rotated xs)[i]? = xs[(i + xs.length - 1) % xs.length]? := by
  have hne : xs ≠ [] := List.ne_nil_of_length_pos (Nat.lt_of_le_of_lt (Nat.zero_le i) h)
  rw [rotated, List.getLast?_eq_some_getLast hne, Option.toList_some, List.singleton_append]
  cases i with
  | zero =>
      rw [List.getElem?_cons_zero, Nat.zero_add, Nat.mod_eq_of_lt (by omega),
        ← List.getLast?_eq_getElem?, List.getLast?_eq_some_getLast hne]
  | succ i =>
      have hplace : i + 1 + xs.length - 1 = i + xs.length := by omega
      rw [List.getElem?_cons_succ, List.getElem?_dropLast, if_pos (by omega), hplace,
        Nat.add_mod_right, Nat.mod_eq_of_lt (by omega)]

/-- The place before the next one of a ring. -/
theorem before_next {n k : Nat} (hk : k < n) : ((k + 1) % n + n - 1) % n = k := by
  rcases Nat.lt_or_eq_of_le (Nat.succ_le_of_lt hk) with hin | hend
  · have hplace : k + 1 + n - 1 = k + n := by omega
    rw [Nat.mod_eq_of_lt hin, hplace, Nat.add_mod_right, Nat.mod_eq_of_lt hk]
  · have hplace : 0 + n - 1 = k := by omega
    rw [← Nat.succ_eq_add_one, hend, Nat.mod_self, hplace, Nat.mod_eq_of_lt hk]

theorem getElem?_zip {γ : Type} {ys : List γ} {i : Nat} {a : β} {b : γ} (ha : xs[i]? = some a)
    (hb : ys[i]? = some b) : (xs.zip ys)[i]? = some (a, b) :=
  List.getElem?_zip_eq_some.mpr ⟨ha, hb⟩

theorem getElem?_steps {i : Nat} {a b : β} :
    (steps xs)[i]? = some (a, b) ↔ xs[i]? = some a ∧ xs[i + 1]? = some b := by
  rw [steps, List.getElem?_zip_eq_some, List.getElem?_tail]

theorem length_steps (xs : List β) : (steps xs).length = xs.length - 1 := by
  rw [steps, List.length_zip, List.length_tail]
  omega

theorem length_steps_closed (xs : List β) : (steps (closed xs)).length = xs.length := by
  rcases eq_or_ne xs [] with rfl | h
  · rfl
  · rw [length_steps, length_closed h, Nat.add_sub_cancel]

/-- From each entry of a ring there is a step to the next one, from the last to the first. -/
theorem getElem?_steps_closed {i : Nat} (hi : i < xs.length) {a b : β} :
    (steps (closed xs))[i]? = some (a, b) ↔
      xs[i]? = some a ∧ xs[(i + 1) % xs.length]? = some b := by
  rw [getElem?_steps, getElem?_closed (Nat.le_of_lt hi), getElem?_closed hi, Nat.mod_eq_of_lt hi]

end Places

/-! ## Rings of images -/

section Images
variable {β γ : Type} (f : β → γ) (xs : List β)

theorem closed_map : closed (xs.map f) = (closed xs).map f := by
  cases xs <;> simp [closed]

theorem rotated_map : rotated (xs.map f) = (rotated xs).map f := by
  rw [rotated, rotated, List.getLast?_map, List.map_append, List.map_dropLast]
  cases xs.getLast? <;> rfl

theorem steps_map : steps (xs.map f) = (steps xs).map (Prod.map f f) := by
  rw [steps, steps, ← List.map_tail, List.zip_map]

end Images

/-! ## Knots -/

section Knots
variable {α : Type} [AddCommGroup α]

theorem length_knotsFrom (start : α) (lengths : List α) :
    (knotsFrom start lengths).length = lengths.length + 1 := by
  induction lengths generalizing start with
  | nil => rfl
  | cons x lengths ih => rw [knotsFrom, List.length_cons, ih, List.length_cons]

/-- A knot is the sum of the lengths before it. -/
theorem getElem?_knotsFrom {start : α} {lengths : List α} {i : Nat} (hi : i ≤ lengths.length) :
    (knotsFrom start lengths)[i]? = some (start + (lengths.take i).sum) := by
  induction lengths generalizing start i with
  | nil =>
      rw [List.length_nil, Nat.le_zero] at hi
      subst hi
      simp [knotsFrom]
  | cons x lengths ih =>
      cases i with
      | zero => simp [knotsFrom]
      | succ i =>
          rw [knotsFrom, List.getElem?_cons_succ, ih (Nat.le_of_succ_le_succ hi),
            List.take_succ_cons, List.sum_cons, add_assoc]

theorem getElem?_steps_knotsFrom (start : α) {lengths : List α} {i : Nat}
    (hi : i < lengths.length) :
    (steps (knotsFrom start lengths))[i]? =
      some (start + (lengths.take i).sum, start + (lengths.take (i + 1)).sum) :=
  getElem?_steps.mpr ⟨getElem?_knotsFrom (Nat.le_of_lt hi), getElem?_knotsFrom hi⟩

theorem length_steps_knotsFrom (start : α) (lengths : List α) :
    (steps (knotsFrom start lengths)).length = lengths.length := by
  rw [length_steps, length_knotsFrom, Nat.add_sub_cancel]

theorem sum_take_succ {lengths : List α} {i : Nat} {x : α} (hi : lengths[i]? = some x) :
    (lengths.take (i + 1)).sum = (lengths.take i).sum + x := by
  rw [List.take_add_one, hi, List.sum_append, Option.toList_some, List.sum_singleton]

/-- The distances between the knots are the lengths. -/
theorem widths_knotsFrom (start : α) (lengths : List α) :
    ((steps (knotsFrom start lengths)).map fun (a, b) => b - a) = lengths := by
  apply List.ext_getElem?
  intro i
  rcases Nat.lt_or_ge i lengths.length with hi | hi
  · have hx : lengths[i]? = some lengths[i] := List.getElem?_eq_getElem hi
    rw [List.getElem?_map, getElem?_steps_knotsFrom _ hi, sum_take_succ hx, hx, ← add_assoc]
    exact congrArg some (add_sub_cancel_left _ _)
  · rw [List.getElem?_eq_none hi, List.getElem?_eq_none]
    rwa [List.length_map, length_steps_knotsFrom]

end Knots

end Patchbay.Spline
