import Exemplar.Size

/-!
# Upper bounds

A `Bound` limits a length or a repetition count from above: it is a size, or there is no limit.
Sums and products that are no size any more are unbounded, and zero times anything is zero.
-/

namespace Exemplar

/-- An upper limit on a length or on a repetition count, which is a size, or no limit at all. -/
inductive Bound where
  | finite (limit : Nat) (isSize : limit < Size.modulus)
  | unbounded
  deriving DecidableEq, Repr

namespace Bound

instance : Inhabited Bound := ⟨unbounded⟩

/-- Nothing is allowed but zero. -/
instance : OfNat Bound 0 := ⟨finite 0 Size.zero_lt_modulus⟩

/-- Nothing is allowed but zero and one. -/
instance : OfNat Bound 1 := ⟨finite 1 Size.one_lt_modulus⟩

/-- The bound of an exact limit: a number that is no size is unbounded. -/
def ofExact (limit : Nat) : Bound :=
  if h : limit < Size.modulus then finite limit h else unbounded

/-- The limit, if there is one. -/
def finite? : Bound → Option Nat
  | finite limit _ => some limit
  | unbounded => none

/-- Whether there is no limit. -/
def isUnbounded (bound : Bound) : Bool :=
  bound == unbounded

/-- `bound.Allows number` says that the number does not exceed the bound. -/
def Allows : Bound → Nat → Prop
  | finite limit _, number => number ≤ limit
  | unbounded, _ => True

/-- `bound.IsWithin number` says that the bound allows nothing above the number. -/
def IsWithin : Bound → Nat → Prop
  | finite limit _, number => limit ≤ number
  | unbounded, _ => False

/-- `Le first second` says that `second` allows whatever `first` allows. -/
def Le : Bound → Bound → Prop
  | finite first _, second => second.Allows first
  | unbounded, second => second = unbounded

instance : LE Bound := ⟨Le⟩

instance : LT Bound := ⟨fun first second ↦ first ≤ second ∧ ¬ second ≤ first⟩

instance decidableAllows : (bound : Bound) → (number : Nat) → Decidable (bound.Allows number)
  | finite limit _, number => inferInstanceAs (Decidable (number ≤ limit))
  | unbounded, _ => isTrue trivial

instance decidableIsWithin :
    (bound : Bound) → (number : Nat) → Decidable (bound.IsWithin number)
  | finite limit _, number => inferInstanceAs (Decidable (limit ≤ number))
  | unbounded, _ => isFalse id

instance decidableLe : (first second : Bound) → Decidable (first ≤ second)
  | finite first _, second => inferInstanceAs (Decidable (second.Allows first))
  | unbounded, second => inferInstanceAs (Decidable (second = unbounded))

instance (first second : Bound) : Decidable (first < second) :=
  inferInstanceAs (Decidable (_ ∧ ¬ _))

instance : Max Bound := maxOfLe

instance : Min Bound := minOfLe

/-- Bounds are ordered by their limits, and no limit comes last. -/
instance : Ord Bound where
  compare
    | finite first _, finite second _ => compare first second
    | finite _ _, unbounded => .lt
    | unbounded, finite _ _ => .gt
    | unbounded, unbounded => .eq

/-- Two lengths in a row are bounded by the sum of their bounds. -/
instance : Add Bound where
  add
    | finite first _, finite second _ => ofExact (first + second)
    | _, _ => unbounded

/-- A repeated length is bounded by the product, and zero absorbs even an unbounded factor. -/
instance : Mul Bound where
  mul
    | finite first _, finite second _ => ofExact (first * second)
    | finite 0 _, unbounded => 0
    | unbounded, finite 0 _ => 0
    | _, _ => unbounded

/-- The bound, or the number itself where the bound does not allow it. -/
def raise (bound : Bound) (number : Nat) : Bound :=
  if bound.Allows number then bound else ofExact number

/-- The limit in decimal, or the word for no limit. -/
protected def toString : Bound → String
  | finite limit _ => toString limit
  | unbounded => "unbounded"

instance : ToString Bound := ⟨Bound.toString⟩

/-- The bound of an exact limit allows the limit. -/
theorem allows_ofExact_self (limit : Nat) : (ofExact limit).Allows limit := by
  unfold ofExact
  split
  · exact Nat.le_refl limit
  · exact trivial

/-- A raised bound allows the number to which it was raised. -/
theorem allows_raise (bound : Bound) (number : Nat) : (bound.raise number).Allows number := by
  unfold raise
  split
  · assumption
  · exact allows_ofExact_self number

/-- Finite bounds are ordered as their limits are. -/
@[simp] theorem finite_le_finite {first second : Nat} {hfirst : first < Size.modulus}
    {hsecond : second < Size.modulus} :
    finite first hfirst ≤ finite second hsecond ↔ first ≤ second :=
  Iff.rfl

/-- No limit is above every bound. -/
@[simp] theorem le_unbounded (bound : Bound) : bound ≤ unbounded := by
  cases bound
  · exact trivial
  · exact rfl

/-- A sum of finite bounds is the exact sum, cut off. -/
@[simp] theorem finite_add_finite {first second : Nat} (hfirst : first < Size.modulus)
    (hsecond : second < Size.modulus) :
    finite first hfirst + finite second hsecond = ofExact (first + second) :=
  rfl

/-- A product of finite bounds is the exact product, cut off. -/
@[simp] theorem finite_mul_finite {first second : Nat} (hfirst : first < Size.modulus)
    (hsecond : second < Size.modulus) :
    finite first hfirst * finite second hsecond = ofExact (first * second) :=
  rfl

end Bound

end Exemplar
