import Patchbay.Behavior.Arithmetic
/-!
When an operation has a result, and what it is.

Operands combine when they are of one numeric kind, or a float and a vector.
Of those that do only quotients of integers can fail: without a divisor, and
for the least integer by minus one, where the exact quotient is one more than
the greatest.  Sums, differences and products leave the kind as often and wrap
around instead.
-/

namespace Patchbay

/-! ## Operands -/

namespace Kind

def vectors : List Kind := [vector2, vector3, vector4]

/-- One numeric kind, or a float and a vector. -/
def Combines (a b : Kind) : Prop :=
  (a = b ∧ KindSet.numeric.contains a = true) ∨ (a = float ∧ b ∈ vectors) ∨
    (a ∈ vectors ∧ b = float)

instance (a b : Kind) : Decidable (a.Combines b) :=
  inferInstanceAs (Decidable (_ ∨ _))

end Kind

namespace Value

/-- The components of a vector. -/
def vector? : Value → Option (List Single)
  | .vector2 v => some v.components
  | .vector3 v => some v.components
  | .vector4 v => some v.components
  | _ => none

/-- The vector of a kind whose components are all the same. -/
def constant? (s : Single) : Kind → Option Value
  | .vector2 => some (.vector2 ⟨s, s⟩)
  | .vector3 => some (.vector3 ⟨s, s, s⟩)
  | .vector4 => some (.vector4 ⟨s, s, s, s⟩)
  | _ => none

/-- Operands that combine, by their form. -/
inductive Combined : Value → Value → Prop
  | float (x y : Single) : Combined (.float x) (.float y)
  | int (x y : Int32) : Combined (.int x) (.int y)
  | uint (x y : UInt32) : Combined (.uint x) (.uint y)
  | vector2 (v w : Vec2) : Combined (.vector2 v) (.vector2 w)
  | vector3 (v w : Vec3) : Combined (.vector3 v) (.vector3 w)
  | vector4 (v w : Vec4) : Combined (.vector4 v) (.vector4 w)
  | floatVector2 (s : Single) (v : Vec2) : Combined (.float s) (.vector2 v)
  | floatVector3 (s : Single) (v : Vec3) : Combined (.float s) (.vector3 v)
  | floatVector4 (s : Single) (v : Vec4) : Combined (.float s) (.vector4 v)
  | vector2Float (v : Vec2) (s : Single) : Combined (.vector2 v) (.float s)
  | vector3Float (v : Vec3) (s : Single) : Combined (.vector3 v) (.float s)
  | vector4Float (v : Vec4) (s : Single) : Combined (.vector4 v) (.float s)

/-- All other pairs of forms have kinds that do not combine. -/
theorem combined_of_kind {a b : Value} (h : a.kind.Combines b.kind) : a.Combined b := by
  cases a <;> cases b <;> first | constructor | (simp only [kind] at h; exact absurd h (by decide))

theorem kind_of_combined {a b : Value} (h : a.Combined b) : a.kind.Combines b.kind := by
  cases h <;> (simp only [kind]; decide)

/-- Integers of one kind, the second of which is zero. -/
def ZeroDivisor (a b : Value) : Prop :=
  (∃ x, a = .int x ∧ b = .int 0) ∨ ∃ x, a = .uint x ∧ b = .uint 0

end Value

namespace Operation

variable {o : Operation}

/-! ## Integers -/

/-- The result among all integers; a quotient is without its fraction. -/
def exact : Operation → Int → Int → Int
  | add, x, y => x + y
  | sub, x, y => x - y
  | mul, x, y => x * y
  | div, x, y => x.tdiv y

theorem ofInt_exact_int (o : Operation) (x y : Int32) :
    Int32.ofInt (o.exact x.toInt y.toInt) =
      match o with
      | add => x + y
      | sub => x - y
      | mul => x * y
      | div => x / y := by
  cases o with
  | add => simp [exact]
  | sub => simp [exact]
  | mul => simp [exact]
  | div =>
      have hx := Int32.ofInt_tdiv x.minValue_le_toInt x.toInt_le y.minValue_le_toInt y.toInt_le
      rw [Int32.ofInt_toInt, Int32.ofInt_toInt] at hx
      exact hx

theorem onInt_eq_ok {x y r : Int32} :
    o.onInt x y = .ok r ↔ ¬(o = .div ∧ (y = 0 ∨ (x = Int32.minValue ∧ y = -1))) ∧
      r = Int32.ofInt (o.exact x.toInt y.toInt) := by
  rw [ofInt_exact_int]
  cases o with
  | div =>
      simp only [onInt, divideInt, true_and]
      split
      · next h => simp [h]
      · next h => simp [h, eq_comm]
  | _ => simp [onInt, eq_comm]

/-- A number without a sign is what remains of any integer that is a multiple of 4294967296 away. -/
theorem eq_ofInt {r : UInt32} {n : Int} (h : (r.toNat : Int) = n % 4294967296) :
    r = UInt32.ofInt n := by
  apply UInt32.toNat_inj.mp
  have hr := r.toNat_lt
  simp only [UInt32.ofInt, UInt32.toNat_ofNat']
  omega

theorem ofInt_exact_uint (o : Operation) (x y : UInt32) :
    UInt32.ofInt (o.exact x.toNat y.toNat) =
      match o with
      | add => x + y
      | sub => x - y
      | mul => x * y
      | div => x / y := by
  symm
  have hx := x.toNat_lt
  have hy := y.toNat_lt
  cases o with
  | add =>
      refine eq_ofInt ?_
      rw [exact, UInt32.toNat_add]
      omega
  | sub =>
      refine eq_ofInt ?_
      rw [exact, UInt32.toNat_sub]
      omega
  | mul =>
      refine eq_ofInt ?_
      rw [exact, UInt32.toNat_mul, Int.natCast_emod, Int.natCast_mul]
      rfl
  | div =>
      refine eq_ofInt ?_
      have hlt : x.toNat / y.toNat < 2 ^ 32 := Nat.lt_of_le_of_lt (Nat.div_le_self _ _) hx
      rw [exact, UInt32.toNat_div, ← Int.ofNat_tdiv, Int.emod_eq_of_lt (Int.natCast_nonneg _)]
      exact Int.ofNat_lt.mpr hlt

theorem onUInt_eq_ok {x y r : UInt32} :
    o.onUInt x y = .ok r ↔ ¬(o = .div ∧ y = 0) ∧
      r = UInt32.ofInt (o.exact x.toNat y.toNat) := by
  rw [ofInt_exact_uint]
  cases o with
  | div =>
      simp only [onUInt, divideUInt, true_and]
      split
      · next h => simp [h]
      · next h => simp [h, eq_comm]
  | _ => simp [onUInt, eq_comm]

/-! ## Values -/

/-- Operands that do not combine are told apart before anything is computed. -/
theorem apply_of_uncombined {a b : Value} (h : ¬a.kind.Combines b.kind) :
    o.apply a b = .error (.typeMismatch "B" (KindSet.single a.kind) b.kind) := by
  have hcombined : ¬a.Combined b := fun hab => h (Value.kind_of_combined hab)
  cases a with
  | float s =>
      cases b with
      | float t => exact absurd (.float s t) hcombined
      | vector2 v => exact absurd (.floatVector2 s v) hcombined
      | vector3 v => exact absurd (.floatVector3 s v) hcombined
      | vector4 v => exact absurd (.floatVector4 s v) hcombined
      | _ => rfl
  | int x =>
      cases b with
      | int y => exact absurd (.int x y) hcombined
      | _ => rfl
  | uint x =>
      cases b with
      | uint y => exact absurd (.uint x y) hcombined
      | _ => rfl
  | vector2 v =>
      cases b with
      | vector2 w => exact absurd (.vector2 v w) hcombined
      | float s => exact absurd (.vector2Float v s) hcombined
      | _ => rfl
  | vector3 v =>
      cases b with
      | vector3 w => exact absurd (.vector3 v w) hcombined
      | float s => exact absurd (.vector3Float v s) hcombined
      | _ => rfl
  | vector4 v =>
      cases b with
      | vector4 w => exact absurd (.vector4 v w) hcombined
      | float s => exact absurd (.vector4Float v s) hcombined
      | _ => rfl
  | _ => rfl

section Failures
variable {ε α β : Type} {x : Except ε α}

theorem map_fails_iff (f : α → β) : (∃ e, x.map f = .error e) ↔ ¬∃ a, x = .ok a := by
  cases x with
  | ok a => simp [Except.map]
  | error e => simp [Except.map]

theorem map_eq_ok (f : α → β) {b : β} : x.map f = .ok b ↔ ∃ a, x = .ok a ∧ f a = b := by
  cases x with
  | ok a => simp [Except.map]
  | error e => simp [Except.map]

end Failures

/-- An operation on operands that combine fails when they are integers without a quotient. -/
theorem fails_of_combined {a b : Value} (h : a.Combined b) :
    (∃ e, o.apply a b = .error e) ↔
      o = .div ∧ (a.ZeroDivisor b ∨ (a = .int Int32.minValue ∧ b = .int (-1))) := by
  cases h with
  | int x y =>
      rw [apply, map_fails_iff]
      simp only [onInt_eq_ok, exists_and_left, exists_eq, and_true, Classical.not_not]
      simp [Value.ZeroDivisor]
  | uint x y =>
      rw [apply, map_fails_iff]
      simp only [onUInt_eq_ok, exists_and_left, exists_eq, and_true, Classical.not_not]
      simp [Value.ZeroDivisor]
  | _ => simp [apply, Value.ZeroDivisor]

/-- Two vectors of one kind are combined component by component. -/
theorem apply_vectors {v w : Value} {xs ys : List Single} (hkind : v.kind = w.kind)
    (hv : v.vector? = some xs) (hw : w.vector? = some ys) :
    ∃ r, o.apply v w = .ok r ∧ r.kind = v.kind ∧ r.vector? = some (xs.zipWith o.onSingle ys) := by
  cases v with
  | vector2 v =>
      cases w with
      | vector2 w => cases hv; cases hw; exact ⟨_, rfl, rfl, rfl⟩
      | _ => exact nomatch hkind
  | vector3 v =>
      cases w with
      | vector3 w => cases hv; cases hw; exact ⟨_, rfl, rfl, rfl⟩
      | _ => exact nomatch hkind
  | vector4 v =>
      cases w with
      | vector4 w => cases hv; cases hw; exact ⟨_, rfl, rfl, rfl⟩
      | _ => exact nomatch hkind
  | _ => exact nomatch hv

theorem vector?_constant {s : Single} {v w : Value} (h : Value.constant? s v.kind = some w) :
    w.kind = v.kind ∧ w.vector? = v.vector?.map (List.map fun _ => s) := by
  cases v with
  | vector2 v => cases h; exact ⟨rfl, rfl⟩
  | vector3 v => cases h; exact ⟨rfl, rfl⟩
  | vector4 v => cases h; exact ⟨rfl, rfl⟩
  | _ => exact nomatch h

/-- A float and a vector are combined as the vector of that float and the vector. -/
theorem apply_constant {s : Single} {v w : Value} (h : Value.constant? s v.kind = some w) :
    o.apply (.float s) v = o.apply w v ∧ o.apply v (.float s) = o.apply v w := by
  cases v with
  | vector2 v => cases h; exact ⟨rfl, rfl⟩
  | vector3 v => cases h; exact ⟨rfl, rfl⟩
  | vector4 v => cases h; exact ⟨rfl, rfl⟩
  | _ => exact nomatch h

/-- An operation fails on operands that do not combine, and a quotient of integers does without a
divisor, and for the least integer by minus one.  Other results of integers are the exact ones
reduced to 32 bits, those of vectors are found component by component, and a float stands for the
vector of that float. -/
theorem verdict_of_apply (o : Operation) :
    (∀ a b, (∃ e, o.apply a b = .error e) ↔ ¬a.kind.Combines b.kind ∨
      o = .div ∧ (a.ZeroDivisor b ∨ (a = .int Int32.minValue ∧ b = .int (-1)))) ∧
    (∀ x y r, o.apply (.int x) (.int y) = .ok r →
      r = .int (Int32.ofInt (o.exact x.toInt y.toInt))) ∧
    (∀ x y r, o.apply (.uint x) (.uint y) = .ok r →
      r = .uint (UInt32.ofInt (o.exact x.toNat y.toNat))) ∧
    (∀ s v w, Value.constant? s v.kind = some w →
      w.kind = v.kind ∧ w.vector? = v.vector?.map (List.map fun _ => s) ∧
        o.apply (.float s) v = o.apply w v ∧ o.apply v (.float s) = o.apply v w) ∧
    ∀ v w xs ys, v.kind = w.kind → v.vector? = some xs → w.vector? = some ys →
      ∃ r, o.apply v w = .ok r ∧ r.kind = v.kind ∧
        r.vector? = some (xs.zipWith o.onSingle ys) := by
  refine ⟨fun a b => ?_, fun x y r hr => ?_, fun x y r hr => ?_, fun s v w hw => ?_,
    fun v w xs ys => apply_vectors⟩
  · by_cases h : a.kind.Combines b.kind
    · rw [fails_of_combined (Value.combined_of_kind h), or_iff_right (not_not_intro h)]
    · exact iff_of_true ⟨_, apply_of_uncombined h⟩ (Or.inl h)
  · rw [apply] at hr
    obtain ⟨q, hq, rfl⟩ := (map_eq_ok _).mp hr
    rw [(onInt_eq_ok.mp hq).2]
  · rw [apply] at hr
    obtain ⟨q, hq, rfl⟩ := (map_eq_ok _).mp hr
    rw [(onUInt_eq_ok.mp hq).2]
  · obtain ⟨hkind, hvector⟩ := vector?_constant hw
    exact ⟨hkind, hvector, apply_constant hw⟩

/-- The least integer by minus one has an exact quotient, and still it is reported that the divisor
is zero. -/
theorem apply_least_by_minus_one :
    div.apply (.int Int32.minValue) (.int (-1)) = .error .divisionByZero ∧
      ¬(Value.int Int32.minValue).ZeroDivisor (.int (-1)) ∧
      (Value.int Int32.minValue).kind.Combines (Value.int (-1)).kind ∧
      Int32.ofInt (div.exact Int32.minValue.toInt (-1 : Int32).toInt) = Int32.minValue := by
  refine ⟨rfl, ?_, Value.kind_of_combined (.int _ _), by decide⟩
  rintro (⟨x, -, hy⟩ | ⟨x, hx, -⟩)
  · cases hy
  · cases hx

end Operation

end Patchbay
