import Exemplar.Bound

/-!
# Extents

The `Extent` of a pattern is the range of the lengths of its strings: a least length and an upper
bound. Extents are computed from those of the parts: one after the other, one of several, and
repeated. A least length that is no size is cut off at the largest size.
-/

namespace Exemplar

/-- The least length of a string, which is a size, and a bound on its length. -/
structure Extent where
  min : Nat
  max : Bound
  min_lt : min < Size.modulus
  deriving Repr

namespace Extent

/-- Extents with the same least length and the same bound are the same. -/
theorem eq_of_ends {first second : Extent} (hmin : first.min = second.min)
    (hmax : first.max = second.max) : first = second := by
  cases first
  cases second
  cases hmin
  cases hmax
  rfl

instance : DecidableEq Extent := fun first second ↦
  if h : first.min = second.min ∧ first.max = second.max then isTrue (eq_of_ends h.1 h.2)
  else isFalse fun heq ↦ h (heq ▸ ⟨rfl, rfl⟩)

/-- The extent from a least length, cut off at the largest size, to a bound. -/
def between (least : Nat) (most : Bound) : Extent :=
  ⟨Min.min least Size.largest, most, Size.min_largest_lt least⟩

/-- The extent of the empty string. -/
def zero : Extent := ⟨0, 0, Size.zero_lt_modulus⟩

instance : Inhabited Extent := ⟨zero⟩

/-- The extent of strings of one length. -/
def ofLength (length : Nat) : Extent := between length (.ofExact length)

/-- The extent of two strings in a row. -/
def followedBy (first second : Extent) : Extent :=
  between (first.min + second.min) (first.max + second.max)

/-- The extent of either of two strings. -/
def either (first second : Extent) : Extent :=
  between (Min.min first.min second.min) (Max.max first.max second.max)

/-- The extent of a string repeated between `least` and `most` times. -/
def repeated (body : Extent) (least : Nat) (most : Bound) : Extent :=
  between (body.min * least) (body.max * most)

/-- The extent of several strings in a row. -/
def inSequence : List Extent → Extent
  | [] => zero
  | part :: parts => part.followedBy (inSequence parts)

/-- The extent of one of several strings, and of the empty string when there are none. -/
def anyOf : List Extent → Extent
  | [] => zero
  | [option] => option
  | option :: options => option.either (anyOf options)

/-- `Valid extent` says that some length lies in the extent. -/
def Valid (extent : Extent) : Prop :=
  extent.max.Allows extent.min

instance (extent : Extent) : Decidable extent.Valid :=
  inferInstanceAs (Decidable (extent.max.Allows extent.min))

/-- `length ∈ extent` says that strings of this length are within the extent. -/
instance : Membership Nat Extent where
  mem extent length := extent.min ≤ length ∧ extent.max.Allows length

instance (extent : Extent) (length : Nat) : Decidable (length ∈ extent) :=
  inferInstanceAs (Decidable (_ ∧ _))

/-- A length is within an extent when it lies between the least length and the bound. -/
theorem mem_iff {extent : Extent} {length : Nat} :
    length ∈ extent ↔ extent.min ≤ length ∧ extent.max.Allows length :=
  Iff.rfl

end Extent

end Exemplar
