import Mathlib.Data.List.Chain
import Mathlib.Data.List.DropRight
import Patchbay.Proofs.Curves
import Patchbay.Proofs.Splines
import Patchbay.Proofs.Widening
/-!
Loops without repeats.

A loop keeps of each run of equal points the first one, and nothing at its
end that equals its first point.  So a point that is repeated in place adds
nothing to it, and neither does a first point that is repeated at the end;
and where two points of a loop differ at all, each differs from the next, the
last from the first.
-/

namespace Patchbay

/-! ## Equal points -/

namespace Vec3

/-- Some coordinate is not a number. -/
def isNaN (v : Vec3) : Bool := v.x.isNaN || v.y.isNaN || v.z.isNaN

theorem same_self {v : Vec3} (h : v.isNaN = false) : v.same v = true := by
  simp only [isNaN, Bool.or_eq_false_iff] at h
  rw [same, Single.same_self h.1.1, Single.same_self h.1.2, Single.same_self h.2]
  rfl

end Vec3

namespace Spline

/-! ## Runs -/

/-- No point that is kept equals the one before it. -/
theorem isChain_dropRepeats (last : Vec3) (points : List Vec3) :
    (last :: dropRepeats last points).IsChain fun p q => p.same q = false := by
  induction points generalizing last with
  | nil => exact List.isChain_singleton last
  | cons p points ih =>
      rw [dropRepeats]
      split
      · exact ih last
      · rename_i hother
        exact List.isChain_cons_cons.mpr ⟨Bool.eq_false_iff.mpr hother, ih p⟩

theorem mem_of_mem_dropRepeats {last p : Vec3} {points : List Vec3}
    (h : p ∈ dropRepeats last points) : p ∈ points := by
  induction points generalizing last with
  | nil => exact h
  | cons q points ih =>
      rw [dropRepeats] at h
      split at h
      · exact List.mem_cons_of_mem q (ih h)
      · rcases List.mem_cons.mp h with rfl | h
        · exact List.mem_cons_self
        · exact List.mem_cons_of_mem q (ih h)

/-- What is kept of points in front does not depend on the ones behind. -/
theorem exists_dropRepeats_append (last : Vec3) (points more : List Vec3) :
    ∃ last', dropRepeats last (points ++ more) =
      dropRepeats last points ++ dropRepeats last' more := by
  induction points generalizing last with
  | nil => exact ⟨last, rfl⟩
  | cons p points ih =>
      rw [List.cons_append, dropRepeats, dropRepeats]
      split
      · exact ih last
      · obtain ⟨last', hlast'⟩ := ih p
        exact ⟨last', by rw [hlast', List.cons_append]⟩

/-- Copies of a point that is kept, or of one that equals it, add nothing. -/
theorem dropRepeats_replicate {last p : Vec3} (h : last.same p = true) (k : Nat)
    (points : List Vec3) :
    dropRepeats last (List.replicate k p ++ points) = dropRepeats last points := by
  induction k with
  | zero => rfl
  | succ k ih => rw [List.replicate_succ, List.cons_append, dropRepeats, if_pos h, ih]

/-! ## Loops -/

/-- The second list is the first one with each point repeated in place. -/
inductive Repeats : List Vec3 → List Vec3 → Prop
  | nil : Repeats [] []
  | cons (p : Vec3) (k : Nat) {xs ys : List Vec3} :
    Repeats xs ys → Repeats (p :: xs) (List.replicate (k + 1) p ++ ys)

theorem dropRepeats_repeats {xs ys : List Vec3} (hnumbers : ∀ p ∈ xs, p.isNaN = false)
    (h : Repeats xs ys) (last : Vec3) : dropRepeats last ys = dropRepeats last xs := by
  induction h generalizing last with
  | nil => rfl
  | @cons p k xs ys h ih =>
      obtain ⟨hp, hxs⟩ := List.forall_mem_cons.mp hnumbers
      rw [List.replicate_succ, List.cons_append, dropRepeats, dropRepeats]
      split
      · rename_i hsame
        rw [dropRepeats_replicate hsame, ih hxs]
      · rw [dropRepeats_replicate (Vec3.same_self hp), ih hxs]

theorem loop_cons (p : Vec3) (points : List Vec3) :
    loop (p :: points) = p :: (dropRepeats p points).rdropWhile (·.same p) :=
  rfl

/-- Repeats in place add nothing to a loop, and neither do points at the end that repeat the
first one. -/
theorem loop_repeats {xs ys closing : List Vec3} (hnumbers : ∀ p ∈ xs, p.isNaN = false)
    (h : Repeats xs ys) (hclosing : ∀ q ∈ closing, xs.head? = some q) :
    loop (ys ++ closing) = loop xs := by
  cases h with
  | nil =>
      have hnone : closing = [] :=
        List.eq_nil_iff_forall_not_mem.mpr fun q hq => nomatch hclosing q hq
      rw [hnone]
      rfl
  | @cons p k xs ys h =>
      obtain ⟨hp, hxs⟩ := List.forall_mem_cons.mp hnumbers
      have hself := Vec3.same_self hp
      have hfirst : ∀ q ∈ closing, q.same p = true := by
        intro q hq
        have hq : some p = some q := hclosing q hq
        rw [← Option.some.inj hq, hself]
      rw [List.replicate_succ, List.cons_append, List.cons_append, loop_cons, loop_cons,
        List.append_assoc, dropRepeats_replicate hself]
      obtain ⟨last', hlast'⟩ := exists_dropRepeats_append p ys closing
      have hdropped : ∀ q ∈ dropRepeats last' closing, q.same p = true :=
        fun q hq => hfirst q (mem_of_mem_dropRepeats hq)
      rw [hlast', dropRepeats_repeats hxs h]
      congr 1
      -- Only points that equal the first one stand behind those that are kept.
      rw [List.rdropWhile, List.rdropWhile, List.reverse_append,
        List.dropWhile_append_of_pos (by simpa using hdropped)]

theorem mem_of_mem_loop {points : List Vec3} {p : Vec3} (h : p ∈ loop points) : p ∈ points := by
  cases points with
  | nil => exact h
  | cons first points =>
      rw [loop_cons] at h
      rcases List.mem_cons.mp h with rfl | h
      · exact List.mem_cons_self
      · exact List.mem_cons_of_mem first
          (mem_of_mem_dropRepeats ((List.rdropWhile_prefix _ _).subset h))

/-- A loop with two different points has more than one. -/
theorem two_le_length_loop {points : List Vec3} (hnumbers : ∀ p ∈ points, p.isNaN = false)
    {p q : Vec3} (hp : p ∈ loop points) (hq : q ∈ loop points) (hother : p.same q = false) :
    2 ≤ (loop points).length := by
  by_contra hfew
  have hone : (loop points).length = 1 := by
    have := List.length_pos_of_mem hp
    omega
  obtain ⟨r, hr⟩ := List.length_eq_one_iff.mp hone
  have hsame := Vec3.same_self (hnumbers p (mem_of_mem_loop hp))
  rw [hr, List.mem_singleton] at hp hq
  rw [hq, ← hp, hsame] at hother
  cases hother

/-- From a point of a loop to the next one is a step to another point, from the last one to the
first too, if the loop has more than one point. -/
theorem same_of_mem_steps_loop {points : List Vec3} (hcount : 2 ≤ (loop points).length)
    {p q : Vec3} (h : (p, q) ∈ steps (closed (loop points))) : p.same q = false := by
  cases points with
  | nil => exact absurd hcount (by decide)
  | cons first points =>
      rw [loop_cons] at hcount h
      set rest := (dropRepeats first points).rdropWhile (·.same first) with hrest
      have hprefix : rest <+: dropRepeats first points := List.rdropWhile_prefix _ _
      have hne : rest ≠ [] := List.ne_nil_of_length_pos (Nat.lt_of_succ_lt_succ hcount)
      have hchain : (first :: rest).IsChain fun p q => p.same q = false := by
        obtain ⟨back, hback⟩ := hprefix
        have hall := isChain_dropRepeats first points
        rw [← hback, ← List.cons_append] at hall
        exact hall.left_of_append
      have hlast : (rest.getLast hne).same first = false :=
        Bool.eq_false_iff.mpr (List.rdropWhile_last_not _ _ hne)
      have hclosed : (closed (first :: rest)).IsChain fun p q => p.same q = false := by
        rw [closed, List.head?_cons, Option.toList_some, List.isChain_append]
        refine ⟨hchain, List.isChain_singleton _, ?_⟩
        intro p hp q hq
        rw [List.getLast?_cons, List.getLast?_eq_some_getLast hne] at hp
        cases hp
        cases hq
        exact hlast
      obtain ⟨i, hi⟩ := List.mem_iff_getElem?.mp h
      obtain ⟨hp, hq⟩ := getElem?_steps.mp hi
      obtain ⟨hi, hp⟩ := List.getElem?_eq_some_iff.mp hp
      obtain ⟨hi', hq⟩ := List.getElem?_eq_some_iff.mp hq
      rw [← hp, ← hq]
      exact hclosed.getElem i hi'

/-- A point by three 64-bit numbers equals another one. -/
def Point.same (p q : Point Float) : Bool := p.x == q.x && p.y == q.y && p.z == q.z

end Spline

namespace ClosedSpline

open Spline

/-- Points differ after widening when they did before, and only then. -/
theorem same_widen (p q : Vec3) : (widen p).same (widen q) = p.same q := by
  rw [Point.same, widen, widen, Double.ofSingle_beq, Double.ofSingle_beq, Double.ofSingle_beq,
    Vec3.same]

theorem through_eq_none {points : List Vec3} : through points = none ↔ points = [] := by
  constructor
  · intro hnone
    by_contra hne
    obtain ⟨c, hc⟩ := exists_through hne
    rw [hnone] at hc
    cases hc
  · rintro rfl
    rfl

/-- Every segment of a curve through a loop of more than one point joins two different points. -/
theorem same_of_mem_segments {points : List Vec3} (hcount : 2 ≤ (loop points).length)
    {c : ClosedSpline} (hc : through points = some c) {g : Segment Float} (hg : g ∈ c.segments) :
    g.startPoint.same g.stopPoint = false := by
  rw [Curve.segments_of_through hc] at hg
  have hstep := mem_steps_of_mem_segments hg
  rw [closed_map, steps_map] at hstep
  obtain ⟨⟨p, q⟩, hpq, hends⟩ := List.mem_map.mp hstep
  obtain ⟨hp, hq⟩ := Prod.mk.inj hends
  rw [← hp, ← hq, same_widen]
  exact same_of_mem_steps_loop hcount hpq

/-- A curve does not change when points are repeated in place or the first one at the end, and
only no points at all have none.  Where two points of the loop differ, each of them differs from
the next, the last from the first, and each segment joins two different points. -/
theorem through_repeats {xs : List Vec3} (hnumbers : ∀ p ∈ xs, p.isNaN = false) :
    (∀ ys closing, Repeats xs ys → (∀ q ∈ closing, xs.head? = some q) →
      through (ys ++ closing) = through xs) ∧
    (through xs = none ↔ xs = []) ∧
    ((∃ p ∈ loop xs, ∃ q ∈ loop xs, p.same q = false) →
      (∀ p q, (p, q) ∈ steps (closed (loop xs)) → p.same q = false) ∧
      ∀ c, through xs = some c → ∀ g ∈ c.segments, g.startPoint.same g.stopPoint = false) := by
  refine ⟨fun ys closing h hclosing => ?_, through_eq_none, ?_⟩
  · rw [through, through, loop_repeats hnumbers h hclosing]
  · rintro ⟨p, hp, q, hq, hother⟩
    have hcount := two_le_length_loop hnumbers hp hq hother
    exact ⟨fun p q h => same_of_mem_steps_loop hcount h,
      fun c hc g hg => same_of_mem_segments hcount hc hg⟩

/-- Back and forth between two points, the first one given twice in front and twice at the end. -/
theorem through_repeats_two :
    let a : Vec3 := ⟨.zero, .zero, .zero⟩
    let b : Vec3 := ⟨.one, .zero, .zero⟩
    through [a, a, b, a, a] = through [a, b] ∧ (through [a, b] = none ↔ [a, b] = []) ∧
      ∀ c, through [a, b] = some c → ∀ g ∈ c.segments, g.startPoint.same g.stopPoint = false := by
  intro a b
  have hnumbers : ∀ p ∈ [a, b], p.isNaN = false := by decide
  obtain ⟨hsame, hnone, hdifferent⟩ := through_repeats hnumbers
  refine ⟨?_, hnone, (hdifferent ⟨a, by decide, b, by decide, by decide⟩).2⟩
  exact hsame [a, a, b] [a, a] (.cons a 1 (.cons b 0 .nil)) (by decide)

end ClosedSpline

end Patchbay
