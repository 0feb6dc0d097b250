import Exemplar.Bound
import Mathlib.Order.Defs.LinearOrder

/-!
# The arithmetic of bounds

Bounds are in linear order, a sum or a product of bounds is the exact one cut off at the number of
sizes, and sums are associative because a sum that was cut off stays cut off. What a bound allows
grows with the bound, and numbers that two bounds allow have a sum that the sum of the bounds
allows.
-/

namespace Exemplar.Bound

/-- A bound allows whatever it allows. -/
protected theorem le_refl (bound : Bound) : bound ≤ bound := by
  cases bound with
  | finite limit isSize => exact Nat.le_refl limit
  | unbounded => rfl

/-- What the second bound allows is allowed by every bound above it. -/
protected theorem le_trans (first second third : Bound) (hfirst : first ≤ second)
    (hsecond : second ≤ third) : first ≤ third := by
  cases first <;> cases second <;> cases third
  · exact Nat.le_trans hfirst hsecond
  · exact trivial
  · cases hsecond
  · exact trivial
  · cases hfirst
  · cases hfirst
  · cases hsecond
  · rfl

/-- Two bounds that allow the same numbers are equal. -/
protected theorem le_antisymm (first second : Bound) (hfirst : first ≤ second)
    (hsecond : second ≤ first) : first = second := by
  cases first <;> cases second
  · have hfirst : _ ≤ _ := hfirst
    have hsecond : _ ≤ _ := hsecond
    congr
    exact Nat.le_antisymm hfirst hsecond
  · cases hsecond
  · cases hfirst
  · rfl

/-- One of two bounds allows whatever the other one allows. -/
protected theorem le_total (first second : Bound) : first ≤ second ∨ second ≤ first := by
  cases first <;> cases second
  · exact Nat.le_total _ _
  · exact .inl trivial
  · exact .inr trivial
  · exact .inl rfl

/-- A bound is below another one when it is at most that one, but not the other way round. -/
protected theorem lt_iff_le_not_ge (first second : Bound) :
    first < second ↔ first ≤ second ∧ ¬ second ≤ first :=
  Iff.rfl

/-- The smaller of two bounds is found by comparing them. -/
protected theorem min_def (first second : Bound) :
    min first second = if first ≤ second then first else second :=
  rfl

/-- The larger of two bounds is found by comparing them. -/
protected theorem max_def (first second : Bound) :
    max first second = if first ≤ second then second else first :=
  rfl

/-- The comparison of two bounds agrees with their order. -/
protected theorem compare_eq_compareOfLessAndEq (first second : Bound) :
    compare first second = compareOfLessAndEq first second := by
  cases first with
  | finite limit isSize =>
    cases second with
    | finite limit' isSize' =>
      show compare limit limit' = _
      rw [Nat.compare_eq_ite_lt, compareOfLessAndEq]
      have hlt : finite limit isSize < finite limit' isSize' ↔ limit < limit' := by
        show limit ≤ limit' ∧ ¬ limit' ≤ limit ↔ _
        omega
      simp only [hlt, finite.injEq]
      split
      · rfl
      · split <;> split <;> first | rfl | omega
    | unbounded =>
      have hlt : finite limit isSize < unbounded := ⟨trivial, Bound.noConfusion⟩
      rw [compareOfLessAndEq, if_pos hlt]
      rfl
  | unbounded =>
    cases second with
    | finite limit' isSize' =>
      have hne : unbounded ≠ finite limit' isSize' := by simp
      have hlt : ¬ unbounded < finite limit' isSize' := fun h ↦ Bound.noConfusion h.1
      rw [compareOfLessAndEq, if_neg hlt, if_neg hne]
      rfl
    | unbounded =>
      rw [compareOfLessAndEq, if_neg fun h ↦ h.2 rfl, if_pos rfl]
      rfl

/-- Bounds are in linear order. -/
instance : LinearOrder Bound where
  le_refl := Bound.le_refl
  le_trans := Bound.le_trans
  le_antisymm := Bound.le_antisymm
  le_total := Bound.le_total
  lt_iff_le_not_ge := Bound.lt_iff_le_not_ge
  toDecidableLE := decidableLe
  toDecidableLT := inferInstance
  toDecidableEq := inferInstance
  min_def := Bound.min_def
  max_def := Bound.max_def
  compare_eq_compareOfLessAndEq := Bound.compare_eq_compareOfLessAndEq

/-- A finite bound allows what its limit does not fall below. -/
@[simp] theorem allows_finite {limit number : Nat} {isSize : limit < Size.modulus} :
    (finite limit isSize).Allows number ↔ number ≤ limit :=
  Iff.rfl

/-- No limit allows everything. -/
@[simp] theorem allows_unbounded (number : Nat) : unbounded.Allows number :=
  trivial

/-- Every bound allows zero. -/
@[simp] theorem allows_zero (bound : Bound) : bound.Allows 0 := by
  cases bound with
  | finite limit isSize => exact Nat.zero_le limit
  | unbounded => trivial

/-- A bound that allows a number allows every smaller one. -/
theorem Allows.mono {bound : Bound} {number smaller : Nat} (h : bound.Allows number)
    (hle : smaller ≤ number) : bound.Allows smaller := by
  cases bound with
  | finite limit isSize => exact Nat.le_trans hle h
  | unbounded => trivial

/-- A larger bound allows more. -/
theorem Allows.of_le {bound larger : Bound} {number : Nat} (h : bound.Allows number)
    (hle : bound ≤ larger) : larger.Allows number := by
  cases bound with
  | finite limit isSize => exact Allows.mono (show larger.Allows limit from hle) h
  | unbounded =>
    cases hle
    trivial

/-- A bound is the larger one when it allows whatever the other allows. -/
theorem le_of_allows {bound larger : Bound}
    (h : ∀ number, bound.Allows number → larger.Allows number) :
    bound ≤ larger := by
  cases bound with
  | finite limit isSize => exact h limit (Nat.le_refl limit)
  | unbounded =>
    cases larger with
    | finite limit isSize => exact absurd (h (limit + 1) trivial) (Nat.not_succ_le_self limit)
    | unbounded => rfl

/-- The bound of a size is its limit. -/
theorem ofExact_of_lt {limit : Nat} (h : limit < Size.modulus) : ofExact limit = finite limit h :=
  dif_pos h

/-- The bound of a number that is no size is no limit. -/
theorem ofExact_of_ge {limit : Nat} (h : Size.modulus ≤ limit) : ofExact limit = unbounded :=
  dif_neg (Nat.not_lt.2 h)

/-- The bound of a number allows what the number is not below, and everything if it is no size. -/
theorem allows_ofExact {limit number : Nat} :
    (ofExact limit).Allows number ↔ limit < Size.modulus → number ≤ limit := by
  rcases Nat.lt_or_ge limit Size.modulus with h | h
  · simp [ofExact_of_lt h, h]
  · simp [ofExact_of_ge h, Nat.not_lt.2 h]

/-- The bound of a larger number is larger. -/
theorem ofExact_mono {first second : Nat} (h : first ≤ second) :
    ofExact first ≤ ofExact second := by
  refine le_of_allows fun number ↦ ?_
  rw [allows_ofExact, allows_ofExact]
  omega

/-- A bound is within a size when it is at most the bound of the size. -/
theorem isWithin_iff {bound : Bound} {limit : Nat} (h : limit < Size.modulus) :
    bound.IsWithin limit ↔ bound ≤ ofExact limit := by
  rw [ofExact_of_lt h]
  cases bound with
  | finite limit' isSize' => exact Iff.rfl
  | unbounded => exact ⟨False.elim, Bound.noConfusion⟩

/-- A raised bound allows a number only when the bound does or the raise does. -/
theorem allows_of_allows_raise {bound : Bound} {least number : Nat} (hleast : least < Size.modulus)
    (h : (bound.raise least).Allows number) : bound.Allows number ∨ number ≤ least := by
  unfold raise at h
  split at h
  · exact .inl h
  · exact .inr (allows_ofExact.1 h hleast)

/-- A bound that allows the number to which it is raised stays as it is. -/
theorem raise_of_allows {bound : Bound} {least : Nat} (h : bound.Allows least) :
    bound.raise least = bound :=
  if_pos h

/-- Only zero is raised to zero. -/
theorem eq_zero_of_raise_eq_zero {bound : Bound} {number : Nat} (h : bound.raise number = 0) :
    bound = 0 := by
  by_cases hallows : bound.Allows number
  · rwa [raise_of_allows hallows] at h
  · -- The bound became the number, which is then zero, and every bound allows zero.
    have hself := bound.allows_raise number
    rw [h] at hself
    have hnumber : number = 0 := Nat.le_zero.1 hself
    subst hnumber
    exact absurd bound.allows_zero hallows

/-- Zero as a bound is the limit zero. -/
theorem zero_eq : (0 : Bound) = finite 0 Size.zero_lt_modulus :=
  rfl

/-- One as a bound is the limit one. -/
theorem one_eq : (1 : Bound) = finite 1 Size.one_lt_modulus :=
  rfl

/-- A bound other than zero allows one. -/
theorem eq_zero_or_allows_one (bound : Bound) : bound = 0 ∨ bound.Allows 1 := by
  cases bound with
  | finite limit isSize =>
    cases limit with
    | zero => exact .inl rfl
    | succ limit => exact .inr (Nat.succ_le_succ (Nat.zero_le limit))
  | unbounded => exact .inr trivial

/-- Adding to no limit leaves no limit. -/
@[simp] theorem unbounded_add (bound : Bound) : unbounded + bound = unbounded := by
  cases bound <;> rfl

/-- Adding no limit leaves no limit. -/
@[simp] theorem add_unbounded (bound : Bound) : bound + unbounded = unbounded := by
  cases bound <;> rfl

/-- A sum with a number that is cut off is the exact sum, cut off. -/
theorem ofExact_add_ofExact (first second : Nat) :
    ofExact first + ofExact second = ofExact (first + second) := by
  rcases Nat.lt_or_ge first Size.modulus with hfirst | hfirst
  · rcases Nat.lt_or_ge second Size.modulus with hsecond | hsecond
    · rw [ofExact_of_lt hfirst, ofExact_of_lt hsecond, finite_add_finite]
    · rw [ofExact_of_ge hsecond, add_unbounded, ofExact_of_ge (by omega)]
  · rw [ofExact_of_ge hfirst, unbounded_add, ofExact_of_ge (by omega)]

/-- A bound is no limit, or the bound of a number. -/
theorem eq_unbounded_or_ofExact (bound : Bound) :
    bound = unbounded ∨ ∃ limit, limit < Size.modulus ∧ bound = ofExact limit := by
  cases bound with
  | finite limit isSize => exact .inr ⟨limit, isSize, (ofExact_of_lt isSize).symm⟩
  | unbounded => exact .inl rfl

/-- It does not matter how bounds are added up, although each sum is cut off. -/
theorem add_assoc (first second third : Bound) :
    first + second + third = first + (second + third) := by
  rcases eq_unbounded_or_ofExact first with rfl | ⟨a, -, rfl⟩
  · simp
  rcases eq_unbounded_or_ofExact second with rfl | ⟨b, -, rfl⟩
  · simp
  rcases eq_unbounded_or_ofExact third with rfl | ⟨c, -, rfl⟩
  · simp
  simp only [ofExact_add_ofExact, Nat.add_assoc]

/-- Adding zero in front changes nothing. -/
@[simp] theorem zero_add (bound : Bound) : 0 + bound = bound := by
  cases bound with
  | finite limit isSize => rw [zero_eq, finite_add_finite, Nat.zero_add, ofExact_of_lt isSize]
  | unbounded => rfl

/-- Adding zero behind changes nothing. -/
@[simp] theorem add_zero (bound : Bound) : bound + 0 = bound := by
  cases bound with
  | finite limit isSize => rw [zero_eq, finite_add_finite, Nat.add_zero, ofExact_of_lt isSize]
  | unbounded => rfl

/-- Zero copies are bounded by zero. -/
@[simp] theorem mul_zero (bound : Bound) : bound * 0 = 0 := by
  cases bound with
  | finite limit isSize =>
    rw [zero_eq, finite_mul_finite, Nat.mul_zero, ofExact_of_lt Size.zero_lt_modulus]
  | unbounded => rfl

/-- Copies of nothing are bounded by zero. -/
@[simp] theorem zero_mul (bound : Bound) : 0 * bound = 0 := by
  cases bound with
  | finite limit isSize =>
    rw [zero_eq, finite_mul_finite, Nat.zero_mul, ofExact_of_lt Size.zero_lt_modulus]
  | unbounded => rfl

/-- One copy is bounded as the copied text is. -/
@[simp] theorem mul_one (bound : Bound) : bound * 1 = bound := by
  cases bound with
  | finite limit isSize => rw [one_eq, finite_mul_finite, Nat.mul_one, ofExact_of_lt isSize]
  | unbounded => rfl

/-- A sum of larger bounds is larger. -/
theorem add_le_add {first second first' second' : Bound} (hfirst : first ≤ first')
    (hsecond : second ≤ second') : first + second ≤ first' + second' := by
  cases first' with
  | unbounded => simp
  | finite limit isSize =>
    cases second' with
    | unbounded => simp
    | finite limit' isSize' =>
      cases first with
      | unbounded => cases hfirst
      | finite =>
        cases second with
        | unbounded => cases hsecond
        | finite => exact ofExact_mono (Nat.add_le_add hfirst hsecond)

/-- As many copies of a text with a larger bound have a larger bound. -/
theorem mul_le_mul_left {body body' : Bound} (h : body ≤ body') (most : Bound) :
    body * most ≤ body' * most := by
  cases body' with
  | unbounded =>
    cases most with
    | unbounded => exact le_unbounded _
    | finite limit isSize =>
      cases limit with
      | zero => exact le_of_eq (mul_zero body)
      | succ limit => exact le_unbounded _
  | finite limit isSize =>
    cases body with
    | unbounded => cases h
    | finite smaller isSize' =>
      cases most with
      | finite => exact ofExact_mono (Nat.mul_le_mul_right _ h)
      | unbounded =>
        cases smaller with
        | zero =>
          exact le_of_allows fun number hnumber ↦ (Nat.le_zero.1 hnumber) ▸ allows_zero _
        | succ smaller =>
          cases limit with
          | zero => exact absurd h (Nat.not_succ_le_zero smaller)
          | succ limit => exact le_unbounded _

/-- Numbers that two bounds allow have a sum that the sum of the bounds allows. -/
theorem Allows.add {first second : Bound} {left right : Nat} (hfirst : first.Allows left)
    (hsecond : second.Allows right) : (first + second).Allows (left + right) := by
  cases first with
  | unbounded => simp
  | finite limit isSize =>
    cases second with
    | unbounded => simp
    | finite limit' isSize' =>
      rw [finite_add_finite, allows_ofExact]
      exact fun _ ↦ Nat.add_le_add hfirst hsecond

/-- Numbers that two bounds allow have a product that the product of the bounds allows. -/
theorem Allows.mul {first second : Bound} {left right : Nat} (hfirst : first.Allows left)
    (hsecond : second.Allows right) : (first * second).Allows (left * right) := by
  cases first with
  | finite limit isSize =>
    cases second with
    | finite limit' isSize' =>
      rw [finite_mul_finite, allows_ofExact]
      exact fun _ ↦ Nat.mul_le_mul hfirst hsecond
    | unbounded =>
      cases limit with
      | zero =>
        have : left = 0 := Nat.le_zero.1 hfirst
        simp [this]
      | succ limit => trivial
  | unbounded =>
    cases second with
    | finite limit' isSize' =>
      cases limit' with
      | zero =>
        have : right = 0 := Nat.le_zero.1 hsecond
        simp [this]
      | succ limit' => trivial
    | unbounded => trivial

/-! ## Finite bounds -/

/-- A bound within a number is within every larger one. -/
theorem IsWithin.mono {bound : Bound} {number larger : Nat} (h : bound.IsWithin number)
    (hle : number ≤ larger) : bound.IsWithin larger := by
  cases bound with
  | finite limit isSize => exact Nat.le_trans h hle
  | unbounded => cases h

/-- A smaller bound is within every number that a larger one is within. -/
theorem IsWithin.of_le {bound larger : Bound} {number : Nat} (h : larger.IsWithin number)
    (hle : bound ≤ larger) : bound.IsWithin number := by
  cases larger with
  | finite limit isSize =>
    cases bound with
    | finite smaller isSize' => exact Nat.le_trans hle h
    | unbounded => cases hle
  | unbounded => cases h

/-- A finite sum of bounds has finite summands. -/
theorem exists_of_add_eq_finite {first second : Bound} {limit : Nat}
    {isSize : limit < Size.modulus} (h : first + second = finite limit isSize) :
    ∃ left right hleft hright, first = finite left hleft ∧ second = finite right hright ∧
      left + right = limit := by
  cases first with
  | unbounded =>
    rw [unbounded_add] at h
    cases h
  | finite left hleft =>
    cases second with
    | unbounded =>
      rw [add_unbounded] at h
      cases h
    | finite right hright =>
      refine ⟨left, right, hleft, hright, rfl, rfl, ?_⟩
      rw [finite_add_finite] at h
      unfold ofExact at h
      split at h
      · cases h
        rfl
      · cases h

/-- A finite product of bounds other than zero has finite factors. -/
theorem exists_of_mul_eq_finite {first second : Bound} {limit : Nat}
    {isSize : limit < Size.modulus} (h : first * second = finite limit isSize)
    (hfirst : first.Allows 1) (hsecond : second.Allows 1) :
    ∃ left right hleft hright, first = finite left hleft ∧ second = finite right hright ∧
      left * right = limit := by
  cases first with
  | unbounded =>
    cases second with
    | unbounded => cases h
    | finite right hright =>
      cases right with
      | zero => exact absurd hsecond (Nat.not_succ_le_zero 0)
      | succ right => cases h
  | finite left hleft =>
    cases second with
    | unbounded =>
      cases left with
      | zero => exact absurd hfirst (Nat.not_succ_le_zero 0)
      | succ left => cases h
    | finite right hright =>
      refine ⟨left, right, hleft, hright, rfl, rfl, ?_⟩
      rw [finite_mul_finite] at h
      unfold ofExact at h
      split at h
      · cases h
        rfl
      · cases h

end Exemplar.Bound
