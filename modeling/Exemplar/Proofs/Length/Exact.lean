import Exemplar.Proofs.Length.Division
import Exemplar.Proofs.Regex.Simplify

/-!
# Bounds are exact numbers that are cut off

A bound stands for a number that may be infinite (`Bound.toENat`), and `Bound.cutOff` leads back: a
number that is no size any more becomes no limit. Cutting off may be done before or behind a sum
and a product (`cutOff_add`, `cutOff_mul`), because what was cut off stays cut off, unless a factor
zero makes it zero in both cases. So bounds have the laws of these numbers, although each result on
the way is cut off.

Least lengths are cut off at the largest size, and the same holds for them. The extent of a tree is
therefore the same however its sequences and its repetitions are grouped (`boundLaws`).
-/

namespace Exemplar

namespace Bound

variable {first second third : Bound} {number : ℕ∞} {limit : Nat}

/-! ## Cutting off -/

/-- The bound of a number that may be infinite: there is no limit when the number is no size. -/
def cutOff : ℕ∞ → Bound
  | ⊤ => unbounded
  | (limit : Nat) => ofExact limit

/-- A number that is not infinite is cut off like any number. -/
@[simp] theorem cutOff_coe (limit : Nat) : cutOff limit = ofExact limit :=
  rfl

/-- What is infinite is cut off. -/
@[simp] theorem cutOff_top : cutOff ⊤ = unbounded :=
  rfl

/-- Nothing of a bound is cut off. -/
@[simp] theorem cutOff_toENat (bound : Bound) : cutOff bound.toENat = bound := by
  cases bound with
  | finite limit isSize => exact ofExact_of_lt isSize
  | unbounded => rfl

/-- A product with no limit has none, if the factor is not zero. -/
theorem unbounded_mul_ofExact (h : 0 < limit) : unbounded * ofExact limit = unbounded := by
  obtain ⟨below, rfl⟩ := Nat.exists_eq_succ_of_ne_zero (Nat.ne_of_gt h)
  rcases Nat.lt_or_ge (below + 1) Size.modulus with hlt | hge
  · rw [ofExact_of_lt hlt]
    rfl
  · rw [ofExact_of_ge hge]
    rfl

/-- The order of the factors does not matter. -/
protected theorem mul_comm (first second : Bound) : first * second = second * first := by
  cases first with
  | finite left hleft =>
    cases second with
    | finite right hright => rw [finite_mul_finite, finite_mul_finite, Nat.mul_comm]
    | unbounded => cases left <;> rfl
  | unbounded =>
    cases second with
    | finite right hright => cases right <;> rfl
    | unbounded => rfl

/-- A product with a number that is cut off is the exact product, cut off. -/
theorem ofExact_mul_ofExact (left right : Nat) :
    ofExact left * ofExact right = ofExact (left * right) := by
  -- A positive factor keeps a number that is no size from becoming one.
  have hcut {left right : Nat} (hleft : Size.modulus ≤ left) :
      ofExact left * ofExact right = ofExact (left * right) := by
    rw [ofExact_of_ge hleft]
    rcases Nat.eq_zero_or_pos right with rfl | hpos
    · rw [Nat.mul_zero, ofExact_of_lt Size.zero_lt_modulus]
      rfl
    · rw [unbounded_mul_ofExact hpos, ofExact_of_ge]
      exact Nat.le_trans hleft (Nat.le_mul_of_pos_right left hpos)
  rcases Nat.lt_or_ge left Size.modulus with hleft | hleft
  · rcases Nat.lt_or_ge right Size.modulus with hright | hright
    · rw [ofExact_of_lt hleft, ofExact_of_lt hright, finite_mul_finite]
    · rw [Bound.mul_comm, hcut hright, Nat.mul_comm]
  · exact hcut hleft

/-- A sum may be cut off before or behind the addition. -/
theorem cutOff_add (left right : ℕ∞) : cutOff (left + right) = cutOff left + cutOff right := by
  cases left with
  | top => rw [top_add, cutOff_top, unbounded_add]
  | coe left =>
    cases right with
    | top => rw [add_top, cutOff_top, add_unbounded]
    | coe right => exact (ofExact_add_ofExact left right).symm

/-- A product may be cut off before or behind the multiplication. -/
theorem cutOff_mul (left right : ℕ∞) : cutOff (left * right) = cutOff left * cutOff right := by
  have htop (number : ℕ∞) : cutOff (⊤ * number) = unbounded * cutOff number := by
    cases number with
    | top => rfl
    | coe limit =>
      rcases Nat.eq_zero_or_pos limit with rfl | hpos
      · rw [Nat.cast_zero, MulZeroClass.mul_zero, ← Nat.cast_zero, cutOff_coe,
          ofExact_of_lt Size.zero_lt_modulus]
        rfl
      · rw [ENat.top_mul (by exact_mod_cast Nat.ne_of_gt hpos), cutOff_top, cutOff_coe,
          unbounded_mul_ofExact hpos]
  cases left with
  | top => exact htop right
  | coe left =>
    cases right with
    | top => rw [mul_comm, htop, Bound.mul_comm, cutOff_top]
    | coe right => exact (ofExact_mul_ofExact left right).symm

/-- A number that is cut off has a limit when it is a size, which is then the limit. -/
theorem cutOff_eq_finite_iff :
    (∃ isSize, cutOff number = finite limit isSize) ↔
      limit < Size.modulus ∧ number = limit := by
  constructor
  · rintro ⟨isSize, h⟩
    refine ⟨isSize, ?_⟩
    cases number with
    | top => cases h
    | coe number =>
      rcases Nat.lt_or_ge number Size.modulus with hlt | hge
      · rw [cutOff_coe, ofExact_of_lt hlt, finite.injEq] at h
        rw [h]
      · rw [cutOff_coe, ofExact_of_ge hge] at h
        cases h
  · rintro ⟨isSize, rfl⟩
    exact ⟨isSize, ofExact_of_lt isSize⟩

/-! ## Laws -/

/-- A sum of bounds is the exact one, cut off. -/
theorem add_eq_cutOff (first second : Bound) :
    first + second = cutOff (first.toENat + second.toENat) := by
  rw [cutOff_add, cutOff_toENat, cutOff_toENat]

/-- A product of bounds is the exact one, cut off. -/
theorem mul_eq_cutOff (first second : Bound) :
    first * second = cutOff (first.toENat * second.toENat) := by
  rw [cutOff_mul, cutOff_toENat, cutOff_toENat]

/-- The order of the summands does not matter. -/
protected theorem add_comm (first second : Bound) : first + second = second + first := by
  rw [add_eq_cutOff, add_eq_cutOff, add_comm]

/-- It does not matter how bounds are multiplied, although each product is cut off. -/
protected theorem mul_assoc (first second third : Bound) :
    first * second * third = first * (second * third) := by
  rw [← cutOff_toENat first, ← cutOff_toENat second, ← cutOff_toENat third]
  simp only [← cutOff_mul, mul_assoc]

/-- A factor may be multiplied into a sum, although the sum is cut off. -/
protected theorem mul_add (first second third : Bound) :
    first * (second + third) = first * second + first * third := by
  rw [← cutOff_toENat first, ← cutOff_toENat second, ← cutOff_toENat third]
  simp only [← cutOff_mul, ← cutOff_add, mul_add]

/-- A sum may be multiplied by a factor, although the sum is cut off. -/
protected theorem add_mul (first second third : Bound) :
    (first + second) * third = first * third + second * third := by
  rw [Bound.mul_comm, Bound.mul_add, Bound.mul_comm third, Bound.mul_comm third]

/-- A product of larger bounds is larger. -/
protected theorem mul_le_mul {first' second' : Bound} (hfirst : first ≤ first')
    (hsecond : second ≤ second') : first * second ≤ first' * second' :=
  calc first * second
      ≤ first' * second := mul_le_mul_left hfirst second
    _ = second * first' := Bound.mul_comm ..
    _ ≤ second' * first' := mul_le_mul_left hsecond first'
    _ = first' * second' := Bound.mul_comm ..

/-- Bounds are in the order of the numbers for which they stand. -/
theorem le_iff_toENat_le : first ≤ second ↔ first.toENat ≤ second.toENat := by
  cases first with
  | finite left hleft =>
    cases second with
    | finite right hright => rw [finite_le_finite, toENat, toENat, Nat.cast_le]
    | unbounded => simp [toENat]
  | unbounded =>
    cases second with
    | finite right hright => exact ⟨Bound.noConfusion, fun h ↦ absurd h (by simp [toENat])⟩
    | unbounded => simp

end Bound

/-- A factor of a product that is cut off at the largest size may be cut off before. -/
theorem Size.mulCapped_min_largest (left right : Nat) :
    mulCapped (Min.min left largest) right = mulCapped left right := by
  rcases Nat.le_total left largest with hle | hge
  · rw [Nat.min_eq_left hle]
  · rw [Nat.min_eq_right hge, mulCapped, mulCapped]
    rcases Nat.eq_zero_or_pos right with rfl | hpos
    · rfl
    · have hleft := Nat.mul_le_mul_right right hge
      have hlargest := Nat.le_mul_of_pos_right largest hpos
      omega

namespace Extent

/-! ## Extents -/

/-- Rows of parts in a row have the extent of one row of all parts. -/
theorem inSequence_flatten (rows : List (List Extent)) :
    inSequence (rows.map inSequence) = inSequence rows.flatten := by
  induction rows with
  | nil => rfl
  | cons row rows ih => rw [List.map_cons, List.flatten_cons, inSequence_append, inSequence, ih]

/-- A repetition of a repetition has the extent of one repetition, whose counts are the products. -/
theorem repeated_repeated (body : Extent) (least least' : Nat) (most most' : Bound) :
    (body.repeated least most).repeated least' most' =
      body.repeated (Size.mulCapped least least') (most * most') := by
  refine eq_of_ends ?_ (Bound.mul_assoc ..)
  show Size.mulCapped (Min.min (body.min * least) Size.largest) least' =
    Size.mulCapped body.min (Min.min (least * least') Size.largest)
  rw [Size.mulCapped_min_largest, Size.mulCapped, Nat.mul_assoc, Size.mulCapped,
    Nat.mul_comm body.min, Nat.mul_comm body.min]
  exact (Size.mulCapped_min_largest ..).symm

/-- Copies of two strings in a row have the extent of copies of each of them. -/
theorem followedBy_repeated (first second : Extent) (least : Nat) (most : Bound) :
    (first.followedBy second).repeated least most =
      (first.repeated least most).followedBy (second.repeated least most) := by
  refine eq_of_ends ?_ (Bound.add_mul ..)
  show Size.mulCapped (Min.min (first.min + second.min) Size.largest) least =
    Min.min (Min.min (first.min * least) Size.largest + Min.min (second.min * least) Size.largest)
      Size.largest
  rw [Size.mulCapped_min_largest, Size.mulCapped, Nat.add_mul]
  omega

/-- Copies of a row have the extent of a row of copies. -/
theorem inSequence_repeated (parts : List Extent) (least : Nat) (most : Bound) :
    (inSequence parts).repeated least most = inSequence (parts.map (·.repeated least most)) := by
  induction parts with
  | nil => exact zero_repeated least most
  | cons part parts ih => rw [inSequence, followedBy_repeated, ih, List.map_cons, inSequence]

/-- Two repetitions of one body in a row have the extent of one repetition, whose counts are the
sums. -/
theorem repeated_followedBy_repeated (body : Extent) (least least' : Nat) (most most' : Bound) :
    (body.repeated least most).followedBy (body.repeated least' most') =
      body.repeated (Min.min (least + least') Size.largest) (most + most') := by
  refine eq_of_ends ?_ (Bound.mul_add ..).symm
  show Min.min (Min.min (body.min * least) Size.largest + Min.min (body.min * least') Size.largest)
    Size.largest = Size.mulCapped body.min (Min.min (least + least') Size.largest)
  rw [Size.mulCapped, Nat.mul_comm body.min (Min.min ..)]
  show _ = Size.mulCapped (Min.min (least + least') Size.largest) body.min
  rw [Size.mulCapped_min_largest, Size.mulCapped, Nat.mul_comm _ body.min, Nat.mul_add]
  omega

end Extent

namespace Regex

/-! ## Trees -/

/-- Rows of trees in a row have the extent of one row of all trees. -/
theorem extent_inSequence_flatten (rows : List (List Regex)) :
    (inSequence (rows.map inSequence)).extent = (inSequence rows.flatten).extent := by
  have hrow : extent ∘ inSequence = Extent.inSequence ∘ List.map extent :=
    funext extent_inSequence
  rw [extent_inSequence, extent_inSequence, List.map_map, hrow, List.map_flatten,
    ← Extent.inSequence_flatten, List.map_map]

/-- A repetition of a repetition has the extent of one repetition, whose counts are the products. -/
theorem extent_repeated_repeated (body : Regex) (least least' : Nat) (most most' : Bound)
    (mode mode' merged : RepetitionMode) :
    ((body.repeated least most mode).repeated least' most' mode').extent =
      (body.repeated (Size.mulCapped least least')
        (most.raise least * most'.raise least') merged).extent := by
  have hallows : (most.raise least * most'.raise least').Allows (Size.mulCapped least least') :=
    ((most.allows_raise least).mul (most'.allows_raise least')).mono (Nat.min_le_left ..)
  rw [repeated, repeated, repeated, Bound.raise_of_allows hallows]
  exact Extent.repeated_repeated ..

/-- Copies of a row have the extent of a row of copies. -/
theorem extent_repeated_inSequence (parts : List Regex) (least : Nat) (most : Bound)
    (mode : RepetitionMode) :
    ((inSequence parts).repeated least most mode).extent =
      (inSequence (parts.map (·.repeated least most mode))).extent := by
  rw [repeated, extent, extent_inSequence, extent_inSequence, List.map_map,
    Extent.inSequence_repeated, List.map_map]
  rfl

/-- Two repetitions of one body in a row have the extent of one repetition, whose counts are the
sums. -/
theorem extent_inSequence_repeated (body : Regex) (least least' : Nat) (most most' : Bound)
    (mode mode' merged : RepetitionMode) :
    (inSequence [body.repeated least most mode, body.repeated least' most' mode']).extent =
      (body.repeated (Min.min (least + least') Size.largest) (most.raise least + most'.raise least')
        merged).extent := by
  have hallows :
      (most.raise least + most'.raise least').Allows (Min.min (least + least') Size.largest) :=
    ((most.allows_raise least).add (most'.allows_raise least')).mono (Nat.min_le_left ..)
  rw [extent_inSequence, repeated, repeated, repeated, Bound.raise_of_allows hallows]
  show (body.extent.repeated _ _).followedBy ((body.extent.repeated _ _).followedBy .zero) = _
  rw [Extent.followedBy_zero]
  exact Extent.repeated_followedBy_repeated ..

end Regex

/-- What the arithmetic of bounds is, and what follows for the extents of trees.

A sum or a product has a limit just when the exact one is a size, which is then the limit, where
zero times infinity is zero. Bounds obey the laws of a commutative semiring in which zero times any
bound is zero, also where there is no limit. They are in the order of the exact numbers, no limit
is the largest one, and sums and products are monotone.

The extent of a sequence does not depend on how its parts are grouped. The extent of nested
repetitions is that of one, whose counts are the products, that of a repeated sequence is that of
the sequence of the repeated parts, and that of two repetitions of one body in a row is that of
one, whose counts are the sums. -/
structure BoundLaws : Prop where
  add_eq_finite (first second : Bound) (limit : Nat) :
    (∃ isSize, first + second = .finite limit isSize) ↔
      limit < Size.modulus ∧ first.toENat + second.toENat = limit
  mul_eq_finite (first second : Bound) (limit : Nat) :
    (∃ isSize, first * second = .finite limit isSize) ↔
      limit < Size.modulus ∧ first.toENat * second.toENat = limit
  add_comm (first second : Bound) : first + second = second + first
  add_assoc (first second third : Bound) : first + second + third = first + (second + third)
  mul_comm (first second : Bound) : first * second = second * first
  mul_assoc (first second third : Bound) : first * second * third = first * (second * third)
  mul_add (first second third : Bound) : first * (second + third) = first * second + first * third
  zero_add (bound : Bound) : 0 + bound = bound
  one_mul (bound : Bound) : 1 * bound = bound
  zero_mul (bound : Bound) : 0 * bound = 0
  le_iff (first second : Bound) : first ≤ second ↔ first.toENat ≤ second.toENat
  le_unbounded (bound : Bound) : bound ≤ .unbounded
  add_le_add {first first' second second' : Bound} :
    first ≤ first' → second ≤ second' → first + second ≤ first' + second'
  mul_le_mul {first first' second second' : Bound} :
    first ≤ first' → second ≤ second' → first * second ≤ first' * second'
  sequence (rows : List (List Regex)) :
    (Regex.inSequence (rows.map .inSequence)).extent = (Regex.inSequence rows.flatten).extent
  nested (body : Regex) (least least' : Nat) (most most' : Bound)
    (mode mode' merged : RepetitionMode) :
    ((body.repeated least most mode).repeated least' most' mode').extent =
      (body.repeated (Size.mulCapped least least')
        (most.raise least * most'.raise least') merged).extent
  distributed (parts : List Regex) (least : Nat) (most : Bound) (mode : RepetitionMode) :
    ((Regex.inSequence parts).repeated least most mode).extent =
      (Regex.inSequence (parts.map (·.repeated least most mode))).extent
  joined (body : Regex) (least least' : Nat) (most most' : Bound)
    (mode mode' merged : RepetitionMode) :
    (Regex.inSequence [body.repeated least most mode, body.repeated least' most' mode']).extent =
      (body.repeated (Min.min (least + least') Size.largest) (most.raise least + most'.raise least')
        merged).extent

/-- The arithmetic of bounds is exact arithmetic that is cut off at the number of sizes, and the
extent of a tree does not depend on how its sequences and repetitions are grouped. -/
theorem boundLaws : BoundLaws where
  add_eq_finite first second limit := by rw [Bound.add_eq_cutOff, Bound.cutOff_eq_finite_iff]
  mul_eq_finite first second limit := by rw [Bound.mul_eq_cutOff, Bound.cutOff_eq_finite_iff]
  add_comm := Bound.add_comm
  add_assoc := Bound.add_assoc
  mul_comm := Bound.mul_comm
  mul_assoc := Bound.mul_assoc
  mul_add := Bound.mul_add
  zero_add := Bound.zero_add
  one_mul bound := by rw [Bound.mul_comm, Bound.mul_one]
  zero_mul := Bound.zero_mul
  le_iff _ _ := Bound.le_iff_toENat_le
  le_unbounded := Bound.le_unbounded
  add_le_add := Bound.add_le_add
  mul_le_mul := Bound.mul_le_mul
  sequence := Regex.extent_inSequence_flatten
  nested := Regex.extent_repeated_repeated
  distributed := Regex.extent_repeated_inSequence
  joined := Regex.extent_inSequence_repeated

/-- A product on the way is no size, and a factor zero makes it one again, in whatever order the
three are multiplied. -/
example : (.ofExact (2 ^ 40) * .ofExact (2 ^ 40) : Bound) = .unbounded ∧
    (.ofExact (2 ^ 40) * .ofExact (2 ^ 40) * 0 : Bound) =
      .ofExact (2 ^ 40) * (.ofExact (2 ^ 40) * 0) := by
  decide

end Exemplar
