import Exemplar.Proofs.Length.Refitting
import Exemplar.Proofs.Length.Limits

/-!
# Copies within a target

For a target a repetition gets a number of copies and a length for each of them (`fitRepetition`).
The number lies between the fewest and the most copies, and no copy is shorter than the body must
be. All copies are kept when they fit, and the fewest and shortest ones are taken when even these
do not fit (`IsCopyPlan`).

In between, the number is finite and the copies share the target (`SharesTarget`). This is so for
every target below the largest size. At the largest size itself a product that was cut off there
seems to fit, and so the fewest copies get the full length of the body although they are too long
(`isCopyPlan_fitRepetition`).
-/

namespace Exemplar

/-- What a bound within a number allows does not exceed the number. -/
theorem Bound.Allows.le_of_isWithin {bound : Bound} {number target : Nat} (h : bound.Allows number)
    (hwithin : bound.IsWithin target) : number ≤ target := by
  cases bound with
  | finite limit isSize => exact Nat.le_trans h hwithin
  | unbounded => cases hwithin

/-- A bound has a limit when it is finite. -/
theorem Bound.mem_finite? {bound : Bound} {limit : Nat} :
    limit ∈ bound.finite? ↔ ∃ isSize, bound = .finite limit isSize := by
  cases bound with
  | finite limit' isSize' =>
    constructor
    · rintro ⟨⟩
      exact ⟨isSize', rfl⟩
    · rintro ⟨-, ⟨⟩⟩
      rfl
  | unbounded =>
    constructor
    · rintro ⟨⟩
    · rintro ⟨-, ⟨⟩⟩

namespace Extent

variable {body : Extent} {least target : Nat} {most : Bound}

/-- What holds of a number of copies and of their length, whether or not they fit the target. The
fewest copies are allowed, no more than the most are, and a copy may be as long as the body must
be. The most copies are allowed when all of them fit, and the fewest and shortest ones are taken
when these do not fit. -/
structure IsCopyPlan (body : Extent) (least : Nat) (most : Bound) (target : Nat)
    (plan : Bound × Nat) : Prop where
  allows_least : plan.1.Allows least
  le_most : plan.1 ≤ most
  min_le : body.min ≤ plan.2
  eq_most : (body.repeated least most).max.IsWithin target → plan.1 = most
  eq_least : target < least * body.min → plan = (.ofExact least, body.min)

/-- The copies together keep to the target, unless all of them fit or even the fewest and shortest
ones do not. -/
def SharesTarget (body : Extent) (least : Nat) (most : Bound) (target : Nat)
    (plan : Bound × Nat) : Prop :=
  least * body.min ≤ target → ¬ (body.repeated least most).max.IsWithin target →
    ∃ count isSize, plan.1 = .finite count isSize ∧ count * plan.2 ≤ target

/-! ## How the copies are chosen -/

/-- The ways in which a number of copies and their length come about when not all copies fit.
Either the fewest and shortest copies do not fit, and are taken, or the fewest copies of the full
length fit, and as many as fit are taken, or the copies share the target evenly. -/
inductive IsCut (body : Extent) (least : Nat) (most : Bound)
    (target : Nat) : Bound × Nat → Prop where
  | short (hshort : target < Size.mulCapped least body.min) :
      IsCut body least most target (.ofExact least, body.min)
  | full {each count : Nat} (hfull : fitRepetition.fullCopies body least target = some each)
      (hcount : count = Max.max (Min.min (target / each) (most.finite?.getD Size.largest)) least)
      (hsize : count < Size.modulus) : IsCut body least most target (.finite count hsize, each)
  | even {count : Nat} (hlong : ¬ target < Size.mulCapped least body.min)
      (hfull : fitRepetition.fullCopies body least target = none)
      (hcount : count = evenCount body least most target) (hsize : count < Size.modulus) :
      IsCut body least most target
        (.finite count hsize, if count = 0 then body.min else Max.max (target / count) body.min)

/-- The number of copies that share a target evenly is a size. -/
theorem evenCount_lt (hleast : least < Size.modulus) (htarget : target < Size.modulus) :
    evenCount body least most target < Size.modulus := by
  have := Nat.div_le_self target (Max.max body.min 1)
  rw [evenCount]
  omega

/-- When not all copies fit, their number and their length come about in one of these ways. -/
theorem isCut_fitRepetition (hleast : least < Size.modulus) (htarget : target < Size.modulus)
    (hfits : ¬ (body.max * most).IsWithin target) :
    IsCut body least most target (fitRepetition body least most target) := by
  by_cases hshort : target < Size.mulCapped least body.min
  · rw [fitRepetition_of_short hfits hshort]
    exact .short hshort
  cases hfull : fitRepetition.fullCopies body least target with
  | some each =>
    have hdiv := Nat.div_le_self target each
    rw [fitRepetition_of_full hfits hshort hfull, Bound.ofExact_of_lt (by omega)]
    exact .full hfull rfl _
  | none =>
    rw [fitRepetition_of_even hfits hshort hfull, Bound.ofExact_of_lt (evenCount_lt hleast htarget)]
    exact .even hshort hfull rfl _

/-- The fewest and shortest copies that fit still do so when their length is cut off. -/
theorem not_lt_mulCapped (hfloor : least * body.min ≤ target) :
    ¬ target < Size.mulCapped least body.min :=
  Nat.not_lt.2 (Nat.le_trans (Nat.min_le_left ..) hfloor)

namespace IsCut

variable {plan : Bound × Nat}

/-- Copies that do not all fit are no fewer than the fewest ones. -/
theorem allows_least (h : IsCut body least most target plan) : plan.1.Allows least := by
  cases h with
  | short hshort => exact Bound.allows_ofExact_self least
  | full hfull hcount hsize => exact hcount ▸ Nat.le_max_right ..
  | even hlong hfull hcount hsize => exact hcount ▸ Nat.le_max_right ..

/-- The fewest copies of the full length fit, if the product did not seem to fit because it was cut
off. -/
theorem mul_le_of_fullCopies {each : Nat}
    (hfull : fitRepetition.fullCopies body least target = some each)
    (hexact : target < Size.largest ∨
      ∀ limit ∈ body.max.finite?, least * limit < Size.modulus) :
    least * each ≤ target := by
  obtain ⟨isSize, hmax, -, hfew⟩ := fitRepetition.fullCopies_eq_some hfull
  rcases hexact with htarget | hlimit
  · rw [Size.mulCapped] at hfew
    omega
  · rwa [Size.mulCapped_eq (hlimit each (Bound.mem_finite?.2 ⟨isSize, hmax⟩))] at hfew

/-- Copies that do not all fit keep to the target when the fewest and shortest ones do, if no
product seems to fit because it was cut off. -/
theorem mul_le (h : IsCut body least most target plan) (hfloor : least * body.min ≤ target)
    (hexact : target < Size.largest ∨
      ∀ limit ∈ body.max.finite?, least * limit < Size.modulus) :
    ∃ count isSize, plan.1 = .finite count isSize ∧ count * plan.2 ≤ target := by
  cases h with
  | short hshort => exact absurd hshort (not_lt_mulCapped hfloor)
  | @full each count hfull hcount hsize =>
    refine ⟨count, hsize, rfl, ?_⟩
    have hleast := mul_le_of_fullCopies hfull hexact
    have hfit : each * Min.min (target / each) (most.finite?.getD Size.largest) ≤ target :=
      calc each * Min.min (target / each) (most.finite?.getD Size.largest)
          ≤ each * (target / each) := Nat.mul_le_mul_left each (Nat.min_le_left ..)
        _ ≤ target := Nat.mul_div_le target each
    calc count * each = each * count := Nat.mul_comm ..
      _ ≤ target := hcount ▸ mul_max_le hfit (Nat.mul_comm least each ▸ hleast)
  | @even count hlong hfull hcount hsize =>
    refine ⟨count, hsize, rfl, ?_⟩
    show count * ite _ _ _ ≤ target
    split
    · rename_i hzero
      rw [hzero, Nat.zero_mul]
      exact Nat.zero_le target
    · rw [Nat.mul_comm]
      rcases mul_evenCount_le hlong hcount with hle | ⟨rfl, -, hlt⟩
      · exact hle
      · rwa [Nat.max_eq_right (Nat.le_of_lt hlt), Nat.mul_comm]

/-- Where the length of the fewest full copies is no size, it seems to fit the largest size, and so
these copies are taken although they are too long. -/
theorem lt_mul (h : IsCut body least most target plan) {limit : Nat}
    (hlimit : limit ∈ body.max.finite?) (hsize : Size.modulus ≤ least * limit)
    (hfloor : least * body.min ≤ target) (htarget : target < Size.modulus)
    (htop : Size.largest ≤ target) {count : Nat} {isSize : count < Size.modulus}
    (hplan : plan.1 = .finite count isSize) :
    target < count * plan.2 := by
  have hfull : fitRepetition.fullCopies body least target = some limit := by
    obtain ⟨isSize, hmax⟩ := Bound.mem_finite?.1 hlimit
    have hpos : 0 < limit := Nat.pos_of_mul_pos_left (Nat.lt_of_lt_of_le Size.zero_lt_modulus hsize)
    simp only [fitRepetition.fullCopies, hmax]
    exact if_pos ⟨hpos, Nat.le_trans (Size.mulCapped_le_largest ..) htop⟩
  have hleast := h.allows_least
  rw [hplan] at hleast
  have hleast : least ≤ count := hleast
  cases h with
  | short hshort => exact absurd hshort (not_lt_mulCapped hfloor)
  | full hfull' =>
    rw [hfull] at hfull'
    cases hfull'
    exact Nat.lt_of_lt_of_le (Nat.lt_of_lt_of_le htarget hsize) (Nat.mul_le_mul_right limit hleast)
  | even hlong hfull' =>
    rw [hfull] at hfull'
    cases hfull'

end IsCut

/-! ## The plan -/

/-- The fewest and shortest copies are taken for a target that their exact length exceeds. -/
theorem fitRepetition_of_lt_mul (hvalid : body.Valid) (hmost : most.Allows least)
    (hexact : least * body.min < Size.modulus) (h : target < least * body.min) :
    fitRepetition body least most target = (.ofExact least, body.min) := by
  have hfloor : (body.max * most).Allows (body.min * least) := hvalid.mul hmost
  refine fitRepetition_of_short (fun hfits ↦ ?_) (by rwa [Size.mulCapped_eq hexact])
  exact Nat.not_le.2 h (Nat.mul_comm least _ ▸ hfloor.le_of_isWithin hfits)

/-- The number and the length of copies are a plan for every target. -/
theorem IsCopyPlan.fitRepetition (hvalid : body.Valid) (hmost : most.Allows least)
    (hleast : least < Size.modulus) (hexact : least * body.min < Size.modulus)
    (htarget : target < Size.modulus) :
    IsCopyPlan body least most target (fitRepetition body least most target) := by
  have hallows : (Extent.fitRepetition body least most target).1.Allows least := by
    by_cases hfits : (body.max * most).IsWithin target
    · rwa [fitRepetition_of_isWithin least hfits]
    · exact (isCut_fitRepetition hleast htarget hfits).allows_least
  refine ⟨hallows, ?_, min_le_fitRepetition least most target hvalid, fun hfits ↦ ?_,
    fitRepetition_of_lt_mul hvalid hmost hexact⟩
  · rw [← Bound.raise_of_allows hallows]
    exact raise_fitRepetition_le hmost hleast
  · rw [fitRepetition_of_isWithin least hfits]

/-- For every target the number of copies lies between the fewest and the most of them, all of them
are kept when they fit, and the fewest and shortest are taken when these do not fit. In between the
copies share the target, but for the largest size as the target and fewest copies whose full length
is no size. -/
theorem isCopyPlan_fitRepetition (hvalid : body.Valid) (hmost : most.Allows least)
    (hleast : least < Size.modulus) (hexact : least * body.min < Size.modulus)
    (htarget : target < Size.modulus) :
    IsCopyPlan body least most target (fitRepetition body least most target) ∧
      (SharesTarget body least most target (fitRepetition body least most target) ↔
        target < Size.largest ∨ ∀ limit ∈ body.max.finite?,
        least * limit < Size.modulus) := by
  refine ⟨.fitRepetition hvalid hmost hleast hexact htarget, fun hshares ↦ ?_,
    fun hproduct hfloor hfits ↦
    (isCut_fitRepetition hleast htarget hfits).mul_le hfloor hproduct⟩
  have hlargest : Size.largest = Size.modulus - 1 := rfl
  by_contra hnot
  obtain ⟨htop, hnot⟩ := not_or.1 hnot
  obtain ⟨limit, hlimit, hsize⟩ :
    ∃ limit ∈ body.max.finite?, Size.modulus ≤ least * limit := by
    by_contra hsmall
    exact hnot fun limit hlimit ↦ Nat.lt_of_not_le fun hsize ↦ hsmall ⟨limit, hlimit, hsize⟩
  have hfloor : least * body.min ≤ target := by omega
  have hfits : ¬ (body.max * most).IsWithin target := by
    obtain ⟨isSize, hmax⟩ := Bound.mem_finite?.1 hlimit
    intro hfits
    have hlong : body.max.Allows limit := hmax ▸ Nat.le_refl limit
    have hle := (hlong.mul hmost).le_of_isWithin hfits
    rw [Nat.mul_comm] at hle
    omega
  obtain ⟨count, isSize, hplan, hle⟩ := hshares hfloor hfits
  have hlt := (isCut_fitRepetition hleast htarget hfits).lt_mul hlimit hsize hfloor htarget
    (Nat.not_lt.1 htop) hplan
  omega

/-- Copies of two or three letters share thirty characters. -/
theorem isCopyPlan_fitRepetition_pairs :
    let body : Extent := ⟨2, .finite 3 (by decide), by decide⟩
    fitRepetition body 2 .unbounded 30 = (.finite 10 (by decide), 3) ∧
      IsCopyPlan body 2 .unbounded 30 (.finite 10 (by decide), 3) ∧
      SharesTarget body 2 .unbounded 30 (.finite 10 (by decide), 3) := by
  intro body
  have hplan : fitRepetition body 2 .unbounded 30 = (.finite 10 (by decide), 3) := by decide
  obtain ⟨hcopies, hshares⟩ :=
    @isCopyPlan_fitRepetition body 2 30 .unbounded (by decide) (by decide)
    (by decide) (by decide) (by decide)
  rw [hplan] at hcopies hshares
  exact ⟨hplan, hcopies, hshares.2 (.inl (by decide))⟩

/-- Five copies of a body that may be empty or very long get its full length for the largest size,
although they are longer together. -/
theorem not_sharesTarget_largest :
    let body : Extent := ⟨0, .finite (2147483647 * 2147483647) (by decide), by decide⟩
    let most : Bound := .finite 5 (by decide)
    body.Valid ∧ most.Allows 5 ∧ 5 * body.min < Size.modulus ∧
      fitRepetition body 5 most Size.largest = (most, 2147483647 * 2147483647) ∧
      ¬ SharesTarget body 5 most Size.largest (fitRepetition body 5 most Size.largest) := by
  intro body most
  have hplan : fitRepetition body 5 most Size.largest = (most, 2147483647 * 2147483647) := by decide
  refine ⟨by decide, by decide, by decide, hplan, fun hshares ↦ ?_⟩
  rw [hplan] at hshares
  obtain ⟨count, isSize, hcount, hle⟩ := hshares (by decide) (by decide)
  cases hcount
  exact absurd hle (by decide)

end Extent

end Exemplar
