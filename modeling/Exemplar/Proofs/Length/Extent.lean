import Exemplar.Extent.Basic
import Exemplar.Proofs.Length.Bound

/-!
# The arithmetic of extents

Extents in a row form a monoid and alternative extents a semilattice, although least lengths are
cut off at the largest size and bounds give way to no limit. So the extent of a tree does not
depend on how its sequences and its choices are grouped (`inSequence_append`, `anyOf_append`).
Lengths of parts add up to a length of the whole (`mem_followedBy`, `mem_repeated`).
-/

namespace Exemplar.Extent

variable {first second : Extent}

/-- A least length that is a size is not cut off. -/
theorem min_between {least : Nat} (h : least < Size.modulus) (most : Bound) :
    (between least most).min = least := by
  have : Size.largest = Size.modulus - 1 := rfl
  show Min.min least Size.largest = least
  omega

/-- The least length of an extent, cut off once more, is itself. -/
@[simp] theorem between_ends (extent : Extent) : between extent.min extent.max = extent :=
  eq_of_ends (min_between extent.min_lt _) rfl

/-- It does not matter how extents in a row are put together. -/
theorem followedBy_assoc (first second third : Extent) :
    (first.followedBy second).followedBy third = first.followedBy (second.followedBy third) := by
  refine eq_of_ends ?_ (Bound.add_assoc ..)
  show Min.min (Min.min (first.min + second.min) Size.largest + third.min) Size.largest =
    Min.min (first.min + Min.min (second.min + third.min) Size.largest) Size.largest
  omega

/-- The empty string in front changes no extent. -/
@[simp] theorem zero_followedBy (extent : Extent) : zero.followedBy extent = extent := by
  show between (0 + extent.min) (0 + extent.max) = extent
  rw [Nat.zero_add, Bound.zero_add, between_ends]

/-- The empty string behind changes no extent. -/
@[simp] theorem followedBy_zero (extent : Extent) : extent.followedBy zero = extent := by
  show between (extent.min + 0) (extent.max + 0) = extent
  rw [Nat.add_zero, Bound.add_zero, between_ends]

/-- Two rows of parts have the extent of one row of all of them. -/
theorem inSequence_append (first second : List Extent) :
    inSequence (first ++ second) = (inSequence first).followedBy (inSequence second) := by
  induction first with
  | nil => simp [inSequence]
  | cons part parts ih => rw [List.cons_append, inSequence, inSequence, ih, followedBy_assoc]

/-- A text that is put together from two has the extent of both in a row. -/
theorem ofLength_add (first second : Nat) :
    ofLength (first + second) = (ofLength first).followedBy (ofLength second) := by
  refine eq_of_ends ?_ (Bound.ofExact_add_ofExact ..).symm
  show Min.min (first + second) Size.largest =
    Min.min (Min.min first Size.largest + Min.min second Size.largest) Size.largest
  omega

/-- The extent of the empty text is that of the empty string. -/
@[simp] theorem ofLength_zero : ofLength 0 = zero :=
  eq_of_ends rfl (Bound.ofExact_of_lt Size.zero_lt_modulus)

/-- The smaller of two least lengths is not cut off. -/
theorem min_either (first second : Extent) :
    (first.either second).min = Min.min first.min second.min := by
  have := first.min_lt
  exact min_between (by omega) _

/-- It does not matter how alternative extents are put together. -/
theorem either_assoc (first second third : Extent) :
    (first.either second).either third = first.either (second.either third) := by
  refine eq_of_ends ?_ (max_assoc ..)
  rw [min_either, min_either, min_either, min_either, Nat.min_assoc]

/-- One more option in front widens the extent of some options. -/
theorem anyOf_cons (option : Extent) {options : List Extent} (h : options ≠ []) :
    anyOf (option :: options) = option.either (anyOf options) := by
  cases options with
  | nil => exact absurd rfl h
  | cons other options => rfl

/-- Two lists of options have the extent of one list of all of them. -/
theorem anyOf_append {first second : List Extent} (hfirst : first ≠ [])
    (hsecond : second ≠ []) :
    anyOf (first ++ second) = (anyOf first).either (anyOf second) := by
  induction first with
  | nil => exact absurd rfl hfirst
  | cons option options ih =>
    cases options with
    | nil => exact anyOf_cons option hsecond
    | cons other options =>
      rw [List.cons_append, anyOf_cons option (by simp), ih (by simp), anyOf_cons option (by simp),
        either_assoc]

/-- Some option has the least length of all of them. -/
theorem exists_min_eq_anyOf {options : List Extent} (h : options ≠ []) :
    ∃ option ∈ options, option.min = (anyOf options).min := by
  induction options with
  | nil => exact absurd rfl h
  | cons option options ih =>
    cases options with
    | nil => exact ⟨option, by simp, rfl⟩
    | cons other options =>
      obtain ⟨least, hleast, hmin⟩ := ih (by simp)
      rw [anyOf_cons option (by simp), min_either]
      rcases Nat.le_total option.min (anyOf (other :: options)).min with hle | hle
      · exact ⟨option, by simp, (Nat.min_eq_left hle).symm⟩
      · exact ⟨least, List.mem_cons_of_mem _ hleast, hmin.trans (Nat.min_eq_right hle).symm⟩

/-- One copy has the extent of the body. -/
@[simp] theorem repeated_one (body : Extent) : body.repeated 1 1 = body := by
  rw [repeated, Nat.mul_one, Bound.mul_one, between_ends]

/-- No copies have the extent of the empty string. -/
@[simp] theorem repeated_zero (body : Extent) : body.repeated 0 0 = zero := by
  refine eq_of_ends ?_ (Bound.mul_zero _)
  show Min.min (body.min * 0) Size.largest = 0
  simp

/-- Copies of the empty string have its extent. -/
@[simp] theorem zero_repeated (least : Nat) (most : Bound) : zero.repeated least most = zero := by
  refine eq_of_ends ?_ (Bound.zero_mul _)
  show Min.min (0 * least) Size.largest = 0
  simp

/-! ## Lengths -/

/-- A length is in the extent of a text when it is the length of the text. -/
theorem length_mem_ofLength (length : Nat) : length ∈ ofLength length :=
  ⟨Nat.min_le_left .., Bound.allows_ofExact_self length⟩

/-- Lengths of two texts add up to a length of both in a row. -/
theorem mem_followedBy {left right : Nat} (hleft : left ∈ first) (hright : right ∈ second) :
    left + right ∈ first.followedBy second := by
  refine ⟨Nat.le_trans (Nat.min_le_left ..) (Nat.add_le_add hleft.1 hright.1), ?_⟩
  exact hleft.2.add hright.2

/-- A length of one option is a length of either. -/
theorem mem_either_left {length : Nat} (h : length ∈ first) : length ∈ first.either second := by
  refine ⟨?_, h.2.of_le (le_max_left ..)⟩
  rw [min_either]
  exact Nat.le_trans (Nat.min_le_left ..) h.1

/-- A length of the other option is a length of either. -/
theorem mem_either_right {length : Nat} (h : length ∈ second) :
    length ∈ first.either second := by
  refine ⟨?_, h.2.of_le (le_max_right ..)⟩
  rw [min_either]
  exact Nat.le_trans (Nat.min_le_right ..) h.1

/-- A length of one of the options is a length of any of them. -/
theorem mem_anyOf {options : List Extent} {option : Extent} {length : Nat}
    (hoption : option ∈ options) (h : length ∈ option) : length ∈ anyOf options := by
  induction options with
  | nil => cases hoption
  | cons head options ih =>
    rcases List.mem_cons.1 hoption with rfl | hoption
    · cases options with
      | nil => exact h
      | cons other options => exact mem_either_left h
    · rw [anyOf_cons head (List.ne_nil_of_mem hoption)]
      exact mem_either_right (ih hoption)

/-- The lengths of several copies add up to a length of the repetition: the total is at least the
least length times their number, and at most an allowed length times their number. -/
theorem mem_repeated {body : Extent} {least count total each : Nat} {most : Bound}
    (hleast : least ≤ count) (hmost : most.Allows count) (hlow : body.min * count ≤ total)
    (heach : body.max.Allows each) (hhigh : total ≤ each * count) :
    total ∈ body.repeated least most := by
  refine ⟨Nat.le_trans (Nat.min_le_left ..) ?_, (heach.mul hmost).mono hhigh⟩
  exact Nat.le_trans (Nat.mul_le_mul_left _ hleast) hlow

/-! ## Extents with a length -/

/-- Two strings in a row have a length when each of them does. -/
theorem Valid.followedBy (hfirst : first.Valid) (hsecond : second.Valid) :
    (first.followedBy second).Valid :=
  (Bound.Allows.add hfirst hsecond).mono (Nat.min_le_left ..)

/-- Strings in a row have a length when each of them does. -/
theorem valid_inSequence {parts : List Extent} (h : ∀ part ∈ parts, part.Valid) :
    (inSequence parts).Valid := by
  induction parts with
  | nil => exact Nat.le_refl 0
  | cons part parts ih =>
    obtain ⟨hpart, hparts⟩ := List.forall_mem_cons.1 h
    exact hpart.followedBy (ih hparts)

/-- A length is no larger than a number that the bound does not exceed. -/
theorem min_le_of_isWithin {extent : Extent} {number : Nat} (hvalid : extent.Valid)
    (h : extent.max.IsWithin number) : extent.min ≤ number := by
  cases hmax : extent.max with
  | finite limit isSize =>
    rw [hmax] at h
    rw [Valid, hmax] at hvalid
    exact Nat.le_trans hvalid h
  | unbounded =>
    rw [hmax] at h
    cases h

/-! ## Narrower extents -/

/-- `inner.Within outer` says that the one extent lies in the other: its least length is no
smaller, and its bound is no larger. -/
structure Within (inner outer : Extent) : Prop where
  floor_le : outer.min ≤ inner.min
  ceiling_le : inner.max ≤ outer.max

namespace Within

variable {first' second' inner outer : Extent}

/-- An extent lies in itself. -/
theorem refl (extent : Extent) : extent.Within extent :=
  ⟨Nat.le_refl _, le_refl _⟩

/-- An extent within an extent that lies in a third one. -/
theorem trans {middle : Extent} (h : inner.Within middle) (houter : middle.Within outer) :
    inner.Within outer :=
  ⟨Nat.le_trans houter.floor_le h.floor_le, le_trans h.ceiling_le houter.ceiling_le⟩

/-- A length of the inner extent is a length of the outer one. -/
theorem mem (h : inner.Within outer) {length : Nat} (hmem : length ∈ inner) : length ∈ outer :=
  ⟨Nat.le_trans h.floor_le hmem.1, hmem.2.of_le h.ceiling_le⟩

/-- The extent of two strings in a row narrows with both. -/
theorem followedBy (hfirst : first'.Within first) (hsecond : second'.Within second) :
    (first'.followedBy second').Within (first.followedBy second) := by
  refine ⟨?_, Bound.add_le_add hfirst.ceiling_le hsecond.ceiling_le⟩
  have := hfirst.floor_le
  have := hsecond.floor_le
  show Min.min (first.min + second.min) _ ≤ Min.min (first'.min + second'.min) _
  omega

/-- The extent of either of two strings narrows with both. -/
theorem either (hfirst : first'.Within first) (hsecond : second'.Within second) :
    (first'.either second').Within (first.either second) := by
  refine ⟨?_, max_le (le_trans hfirst.ceiling_le (le_max_left ..))
    (le_trans hsecond.ceiling_le (le_max_right ..))⟩
  have := hfirst.floor_le
  have := hsecond.floor_le
  rw [min_either, min_either]
  omega

/-- An option that is dropped narrows the extent. -/
theorem either_right (hsecond : second'.Within second) : second'.Within (first.either second) := by
  refine ⟨?_, le_trans hsecond.ceiling_le (le_max_right ..)⟩
  have := hsecond.floor_le
  rw [min_either]
  omega

/-- Dropping the later options narrows the extent. -/
theorem either_left (hfirst : first'.Within first) : first'.Within (first.either second) := by
  refine ⟨?_, le_trans hfirst.ceiling_le (le_max_left ..)⟩
  have := hfirst.floor_le
  rw [min_either]
  omega

/-- As many copies of a narrower body are narrower. -/
theorem repeated (h : inner.Within outer) (least : Nat) (most : Bound) :
    (inner.repeated least most).Within (outer.repeated least most) := by
  refine ⟨?_, Bound.mul_le_mul_left h.ceiling_le most⟩
  have := Nat.mul_le_mul_right least h.floor_le
  show Min.min (outer.min * least) _ ≤ Min.min (inner.min * least) _
  omega

/-- The empty string is no longer than any number of copies from zero on. -/
theorem zero_repeated (body : Extent) (most : Bound) : zero.Within (body.repeated 0 most) := by
  refine ⟨?_, Bound.le_of_allows fun number h ↦ ?_⟩
  · show Min.min (body.min * 0) Size.largest ≤ 0
    simp
  · have : number = 0 := Nat.le_zero.1 h
    simp [this]

end Within

/-- Every option is within the extent of one of the options. -/
theorem within_anyOf {options : List Extent} {option : Extent} (h : option ∈ options) :
    option.Within (anyOf options) := by
  induction options with
  | nil => cases h
  | cons head options ih =>
    cases options with
    | nil => exact List.mem_singleton.1 h ▸ .refl _
    | cons next options =>
      rcases List.mem_cons.1 h with rfl | h
      · exact .either_left (.refl _)
      · exact .either_right (ih h)

/-- Some length lies in the extent of options when one lies in that of each option. -/
theorem valid_anyOf {options : List Extent} (h : ∀ option ∈ options, option.Valid) :
    (anyOf options).Valid := by
  cases options with
  | nil => exact Nat.le_refl 0
  | cons option options =>
    obtain ⟨shortest, hshortest, hmin⟩ := exists_min_eq_anyOf (List.cons_ne_nil option options)
    rw [Valid, ← hmin]
    exact (h shortest hshortest).of_le (within_anyOf hshortest).ceiling_le

end Exemplar.Extent
