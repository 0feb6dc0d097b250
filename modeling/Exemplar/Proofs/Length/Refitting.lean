import Exemplar.Proofs.Length.Room
import Exemplar.Proofs.Regex.Sizing

/-!
# Budgets that are found again

A target that was split among parts, or for which copies were chosen, is given to what became of
the parts and of the body when they were sized. The parts get the same budgets again, or budgets
that their new bounds do not exceed (`splitTarget_again`). As many copies are chosen again, of the
same length or of a length that the new bound of the body does not exceed (`fitRepetition_again`).

What was sized for the largest size may be longer, because products are cut off there. So nothing is
asked of strings with this budget.
-/

namespace Exemplar.Extent

open List (Forall₂)

variable {parts results : List Extent} {body result : Extent} {least target : Nat} {most : Bound}

/-- In a row of numbers that one of them is not smaller than, the others are zero. -/
theorem eq_replicate_of_sum_le {numbers : List Nat} {number : Nat} (hmem : number ∈ numbers)
    (hsum : numbers.sum ≤ number) :
    ∃ before after, numbers = List.replicate before 0 ++ number :: List.replicate after 0 := by
  obtain ⟨before, after, rfl⟩ := List.append_of_mem hmem
  rw [List.sum_append, List.sum_cons] at hsum
  have hzero {others : List Nat} (h : others.sum = 0) : others = List.replicate others.length 0 :=
    List.eq_replicate_iff.2 ⟨rfl, fun other hother ↦ List.sum_eq_zero_iff.1 h other hother⟩
  refine ⟨before.length, after.length, ?_⟩
  rw [← hzero (show before.sum = 0 by omega), ← hzero (show after.sum = 0 by omega)]

/-- Parts with the same least lengths have the same floor. -/
theorem floorOf_congr (hmin : results.map (·.min) = parts.map (·.min)) :
    floorOf results = floorOf parts := by
  rw [floorOf_eq, floorOf_eq, hmin]

/-- Strings that keep to the limit zero are empty. -/
theorem eq_zero_of_isWithin (hvalid : result.Valid) (h : result.max.IsWithin 0) :
    result = zero := by
  refine eq_of_ends (Nat.le_zero.1 (min_le_of_isWithin hvalid h)) ?_
  cases hmax : result.max with
  | finite limit isSize =>
    rw [hmax] at h
    cases Nat.le_zero.1 h
    rfl
  | unbounded =>
    rw [hmax] at h
    cases h

/-- The largest size is no budget to which a string has to keep. -/
def KeepsTo (extent : Extent) (budget : Nat) : Prop :=
  budget < Size.largest → extent.max.IsWithin budget

/-- Strings in a row that keep to budgets below the largest size are no longer than their sum. -/
theorem isWithin_sum {budgets : List Nat} (h : Forall₂ KeepsTo results budgets)
    (hsmall : ∀ budget ∈ budgets, budget < Size.largest) (hsum : budgets.sum < Size.modulus) :
    (inSequence results).max.IsWithin budgets.sum := by
  induction h with
  | nil => exact Nat.zero_le 0
  | @cons result budget results budgets hhead htail ih =>
    rw [List.forall_mem_cons] at hsmall
    rw [List.sum_cons] at hsum ⊢
    have hfirst := hhead hsmall.1
    have hrest := ih hsmall.2 (by omega)
    rw [Bound.isWithin_iff hsum, ← Bound.ofExact_add_ofExact]
    rw [Bound.isWithin_iff (by omega)] at hfirst hrest
    exact Bound.add_le_add hfirst hrest

/-- Strings that keep to the budget zero are empty. -/
theorem eq_replicate_zero {count : Nat} (hvalid : ∀ result ∈ results, result.Valid)
    (h : Forall₂ KeepsTo results (List.replicate count 0)) :
    results = List.replicate count zero := by
  refine List.eq_replicate_iff.2 ⟨by simpa using h.length_eq, fun result hresult ↦ ?_⟩
  obtain ⟨budget, hbudget, hkeeps⟩ := Regex.exists_of_forall₂ h.flip hresult
  cases List.eq_of_mem_replicate hbudget
  exact eq_zero_of_isWithin (hvalid result hresult) (hkeeps (by decide))

/-- Parts that keep to their budgets, of which one takes all, are empty but for this one. -/
theorem eq_replicate_zero_append {before after budget : Nat}
    (hvalid : ∀ result ∈ results, result.Valid)
    (h : Forall₂ KeepsTo results (List.replicate before 0 ++ budget :: List.replicate after 0)) :
    ∃ alone ∈ results,
      results = List.replicate before zero ++ alone :: List.replicate after zero := by
  have hbefore := List.forall₂_take_append _ _ _ h
  have hafter := List.forall₂_drop_append _ _ _ h
  rw [List.length_replicate] at hbefore hafter
  obtain ⟨alone, others, -, hothers, hdrop⟩ := List.forall₂_cons_right_iff.1 hafter
  have hmem : alone ∈ results := by
    refine List.mem_of_mem_drop (i := before) ?_
    rw [hdrop]
    exact List.mem_cons_self ..
  refine ⟨alone, hmem, ?_⟩
  rw [← eq_replicate_zero (fun result hresult ↦
    hvalid result (List.mem_of_mem_take hresult)) hbefore,
    ← eq_replicate_zero (fun result hresult ↦ hvalid result ?_) hothers, ← hdrop,
    List.take_append_drop]
  refine List.mem_of_mem_drop (i := before) ?_
  rw [hdrop]
  exact List.mem_cons_of_mem _ hresult

/-- Parts that keep to the budgets into which a target was split get the same budgets again, or
budgets that their bounds do not exceed. -/
theorem splitTarget_again (htarget : target < Size.modulus)
    (hvalid : ∀ result ∈ results, result.Valid)
    (hmin : results.map (·.min) = parts.map (·.min))
    (hkeeps : Forall₂ KeepsTo results (splitTarget parts target)) :
    splitTarget results target = splitTarget parts target ∨
      Forall₂ (fun result budget ↦ result.max.IsWithin budget) results
        (splitTarget results target) := by
  have hlargest : Size.largest = Size.modulus - 1 := rfl
  have hfloor := floorOf_congr hmin
  rcases Nat.lt_or_ge (floorOf parts) target with hlt | hle
  · by_cases hfits : (inSequence results).max.IsWithin target
    · exact .inr (isWithin_splitTarget hvalid hfits)
    have hexact : floorOf parts < Size.largest := by omega
    have hsum := sum_splitTarget_le (Nat.le_of_lt hlt) hexact
    -- The parts do not fit, so one of them has the largest size as its budget, and the others have
    -- none.
    obtain ⟨budget, hbudget, hlarge⟩ :
      ∃ budget ∈ splitTarget parts target, Size.largest ≤ budget := by
      by_contra hsmall
      refine hfits ((isWithin_sum hkeeps ?_ (Nat.lt_of_le_of_lt hsum htarget)).mono hsum)
      intro budget hbudget
      exact Nat.lt_of_not_le fun hlarge ↦ hsmall ⟨budget, hbudget, hlarge⟩
    have hall := List.le_sum_of_mem hbudget
    obtain rfl : budget = target := by omega
    obtain ⟨before, after, hsplit⟩ := eq_replicate_of_sum_le hbudget hsum
    rw [hsplit] at hkeeps ⊢
    obtain ⟨alone, halone, hresults⟩ := eq_replicate_zero_append hvalid hkeeps
    have hextent : inSequence results = alone := by
      rw [hresults, inSequence_append, inSequence, inSequence_replicate_zero,
        inSequence_replicate_zero, zero_followedBy, followedBy_zero]
    rw [floorOf, hextent] at hfloor
    rw [hextent] at hfits
    obtain ⟨share, hshare, hagain⟩ :=
      splitTarget_alone (hvalid alone halone) budget before after
    rw [← hresults] at hagain
    rcases hshare with rfl | ⟨hside | hfixed, -⟩
    · exact .inl hagain
    · omega
    · refine absurd ?_ hfits
      rw [hfixed, Bound.ofExact_of_lt alone.min_lt]
      show alone.min ≤ budget
      omega
  · left
    rw [splitTarget_of_le_floorOf hle, splitTarget_of_le_floorOf (hfloor ▸ hle), hmin]

/-- A part gets no larger budget than the target or its own least length. -/
theorem le_or_eq_of_mem_splitTarget (htarget : target < Size.modulus) {budget : Nat}
    (h : budget ∈ splitTarget parts target) :
    budget ≤ target ∨ ∃ part ∈ parts, budget = part.min := by
  have hlargest : Size.largest = Size.modulus - 1 := rfl
  rcases Nat.lt_or_ge (floorOf parts) target with hlt | hle
  · have hexact : floorOf parts < Size.largest := by omega
    exact .inl (Nat.le_trans (List.le_sum_of_mem h) (sum_splitTarget_le (Nat.le_of_lt hlt) hexact))
  · rw [splitTarget_of_le_floorOf hle] at h
    obtain ⟨part, hpart, rfl⟩ := List.mem_map.1 h
    exact .inr ⟨part, hpart, rfl⟩

/-- No part gets a budget that is no size. -/
theorem lt_modulus_of_mem_splitTarget (htarget : target < Size.modulus) {budget : Nat}
    (h : budget ∈ splitTarget parts target) : budget < Size.modulus := by
  rcases le_or_eq_of_mem_splitTarget htarget h with hle | ⟨part, -, rfl⟩
  · exact Nat.lt_of_le_of_lt hle htarget
  · exact part.min_lt

/-! ## Repetitions -/

/-- The fewest copies are chosen for a target that their least length exceeds. -/
theorem fitRepetition_of_short (hfits : ¬ (body.max * most).IsWithin target)
    (hshort : target < Size.mulCapped least body.min) :
    fitRepetition body least most target = (.ofExact least, body.min) := by
  rw [fitRepetition, if_neg hfits, if_pos hshort]

/-- As many copies of the full length as fit are chosen when the fewest of them fit. -/
theorem fitRepetition_of_full (hfits : ¬ (body.max * most).IsWithin target)
    (hlong : ¬ target < Size.mulCapped least body.min) {each : Nat}
    (hfull : fitRepetition.fullCopies body least target = some each) :
    fitRepetition body least most target =
      (.ofExact (Max.max (Min.min (target / each) (most.finite?.getD Size.largest)) least),
        each) := by
  simp only [fitRepetition, if_neg hfits, if_neg hlong, hfull]

/-- The number of copies that share a target evenly. -/
def evenCount (body : Extent) (least : Nat) (most : Bound) (target : Nat) : Nat :=
  Max.max (Min.min (Min.min (Max.max (Size.squareRoot target) 1) (most.finite?.getD Size.largest))
    (target / Max.max body.min 1)) least

/-- Copies share the target evenly otherwise. -/
theorem fitRepetition_of_even (hfits : ¬ (body.max * most).IsWithin target)
    (hlong : ¬ target < Size.mulCapped least body.min)
    (hfull : fitRepetition.fullCopies body least target = none) :
    fitRepetition body least most target = (.ofExact (evenCount body least most target),
      if evenCount body least most target = 0 then body.min
      else Max.max (target / evenCount body least most target) body.min) := by
  simp only [fitRepetition, if_neg hfits, if_neg hlong, hfull]
  rfl

/-- Copies of a body without a bound never have a full length. -/
theorem fullCopies_of_unbounded (hmax : body.max = .unbounded) :
    fitRepetition.fullCopies body least target = none := by
  simp only [fitRepetition.fullCopies, hmax]

/-- No copy gets a length that is no size. -/
theorem fitRepetition_lt_modulus (body : Extent) (least : Nat) (most : Bound)
    (htarget : target < Size.modulus) :
    (fitRepetition body least most target).2 < Size.modulus := by
  have hbody := body.min_lt
  by_cases hfits : (body.max * most).IsWithin target
  · rw [fitRepetition_of_isWithin least hfits]
    cases body.max with
    | finite limit isSize => exact isSize
    | unbounded => exact hbody
  by_cases hshort : target < Size.mulCapped least body.min
  · rw [fitRepetition_of_short hfits hshort]
    exact hbody
  cases hfull : fitRepetition.fullCopies body least target with
  | some each =>
    obtain ⟨isSize, -⟩ := fitRepetition.fullCopies_eq_some hfull
    rw [fitRepetition_of_full hfits hshort hfull]
    exact isSize
  | none =>
    have hshare := Nat.div_le_self target (evenCount body least most target)
    rw [fitRepetition_of_even hfits hshort hfull]
    split
    · exact hbody
    · omega

/-- A product that is no size or above a number is not within the number. -/
theorem isWithin_mul_iff {each count : Nat} {isSize : each < Size.modulus}
    {isSize' : count < Size.modulus} (htarget : target < Size.modulus) :
    (Bound.finite each isSize * Bound.finite count isSize').IsWithin target ↔
      each * count ≤ target := by
  rw [Bound.finite_mul_finite, Bound.isWithin_iff htarget]
  constructor
  · intro h
    exact Bound.allows_ofExact.1 ((Bound.allows_ofExact_self _).of_le h) htarget
  · exact Bound.ofExact_mono

/-- The copies get the least length of the body, or a length that its bound does not exceed, where
no copy is chosen for a repetition that may be repeated. -/
theorem fitRepetition_eq_zero (hone : most.Allows (Max.max least 1))
    (h : (fitRepetition body least most target).1.raise least = 0) :
    (fitRepetition body least most target).2 = body.min ∨
      body.max.IsWithin (fitRepetition body least most target).2 := by
  by_cases hfits : (body.max * most).IsWithin target
  · rw [fitRepetition_of_isWithin least hfits]
    exact .inr (isWithin_copy (hone.mono (Nat.le_max_right ..)) hfits)
  by_cases hshort : target < Size.mulCapped least body.min
  · rw [fitRepetition_of_short hfits hshort]
    exact .inl rfl
  cases hfull : fitRepetition.fullCopies body least target with
  | some each =>
    obtain ⟨isSize, hmax, -⟩ := fitRepetition.fullCopies_eq_some hfull
    rw [fitRepetition_of_full hfits hshort hfull, hmax]
    exact .inr (Nat.le_refl each)
  | none =>
    rw [fitRepetition_of_even hfits hshort hfull] at h ⊢
    have hzero : evenCount body least most target = 0 := by
      have hraise := (Bound.allows_ofExact_self (evenCount body least most target)).mono
        (show least ≤ evenCount body least most target from Nat.le_max_right ..)
      have hself := Bound.allows_ofExact_self (evenCount body least most target)
      rw [Bound.raise_of_allows hraise] at h
      rw [h] at hself
      exact Nat.le_zero.1 hself
    exact .inl (if_pos hzero)

/-- The fewest copies of a bounded body keep their number and get the full length when products are
cut off at the target. -/
theorem fitRepetition_of_largest_le {limit : Nat} {isSize : limit < Size.modulus}
    (hmax : body.max = .finite limit isSize) (htarget : target < Size.modulus)
    (hleast : least < Size.modulus) (htop : Size.largest ≤ target)
    (hlong : ¬ target < Size.mulCapped least body.min)
    (hfits : ¬ (body.max * .ofExact least).IsWithin target) :
    fitRepetition body least (.ofExact least) target = (.ofExact least, limit) := by
  have hmore : ¬ limit * least ≤ target := by
    rwa [hmax, Bound.ofExact_of_lt hleast, isWithin_mul_iff htarget] at hfits
  have hlimit : 0 < limit :=
    Nat.pos_of_mul_pos_right (Nat.lt_of_le_of_lt (Nat.zero_le _) (Nat.lt_of_not_le hmore))
  have hfull : fitRepetition.fullCopies body least target = some limit := by
    simp only [fitRepetition.fullCopies, hmax]
    exact if_pos ⟨hlimit, Nat.le_trans (Size.mulCapped_le_largest ..) htop⟩
  rw [fitRepetition_of_full hfits hlong hfull, Bound.ofExact_of_lt hleast, Bound.finite?,
    Option.getD_some, Nat.max_eq_right (Nat.min_le_right ..), Bound.ofExact_of_lt hleast]

/-- What copies of the full length become when they are fitted again. -/
theorem fitRepetition_again_full {each : Nat} (htarget : target < Size.modulus)
    (hleast : least < Size.modulus) (hmin : result.min = body.min)
    (hlong : ¬ target < Size.mulCapped least body.min)
    (hfull : fitRepetition.fullCopies body least target = some each)
    (hkeeps : result.max.IsWithin each) {count : Nat}
    (hcount : count = Max.max (Min.min (target / each) (most.finite?.getD Size.largest)) least)
    (hfits : ¬ (result.max * .ofExact count).IsWithin target) :
    ∃ length, fitRepetition result least (.ofExact count) target = (.ofExact count, length) ∧
      result.max.IsWithin length := by
  have hlargest : Size.largest = Size.modulus - 1 := rfl
  obtain ⟨isSize, -, hpos, hfew⟩ := fitRepetition.fullCopies_eq_some hfull
  have hdiv : each * (target / each) ≤ target := Nat.mul_div_le target each
  have hsize : count < Size.modulus := by
    have := Nat.div_le_self target each
    omega
  cases hmax : result.max with
  | unbounded =>
    rw [hmax] at hkeeps
    cases hkeeps
  | finite limit isSize' =>
    have hmore : ¬ limit * count ≤ target := by
      rwa [hmax, Bound.ofExact_of_lt hsize, isWithin_mul_iff htarget] at hfits
    rw [hmax] at hkeeps
    have hle : limit * count ≤ each * count := Nat.mul_le_mul_right count hkeeps
    -- More copies than the fewest would fit.
    obtain rfl : count = least := by
      by_contra hne
      have hmore : count ≤ target / each := by omega
      have := Nat.mul_le_mul_left each hmore
      omega
    have htop : Size.largest ≤ target := by
      rw [Size.mulCapped, Nat.mul_comm] at hfew
      omega
    exact ⟨limit, fitRepetition_of_largest_le hmax htarget hsize htop (hmin ▸ hlong) hfits,
      Nat.le_refl limit⟩

/-- Copies that share a target evenly keep to it, unless there are the fewest and their least
length was cut off. -/
theorem mul_evenCount_le (hlong : ¬ target < Size.mulCapped least body.min) {count : Nat}
    (hcount : count = evenCount body least most target) :
    Max.max (target / count) body.min * count ≤ target ∨
      count = least ∧ Size.largest ≤ target ∧ target / count < body.min := by
  rcases Nat.lt_or_ge target (body.min * count) with hgt | hle
  · have hleast : count = least := by
      by_contra hne
      have hfew : count ≤ target / Max.max body.min 1 := by
        rw [evenCount] at hcount
        omega
      have hfit : body.min * count ≤ target :=
        calc body.min * count ≤ Max.max body.min 1 * (target / Max.max body.min 1) :=
              Nat.mul_le_mul (Nat.le_max_left ..) hfew
          _ ≤ target := Nat.mul_div_le ..
      omega
    subst hleast
    refine .inr ⟨rfl, ?_, Nat.div_lt_of_lt_mul (Nat.mul_comm body.min count ▸ hgt)⟩
    rw [Size.mulCapped, Nat.mul_comm] at hlong
    omega
  · rw [Nat.mul_comm]
    exact .inl (mul_max_le (Nat.mul_div_le target count) (Nat.mul_comm body.min count ▸ hle))

/-- The number of copies that share a target evenly is found again as the most copies that are
allowed, if they keep to the target with the largest size as their length. -/
theorem evenCount_again (htarget : target < Size.modulus) (hmin : result.min = body.min)
    {count each : Nat} (hcount : count = evenCount body least most target)
    (hsize : count < Size.modulus) (hpos : 0 < count) (hlarge : Size.largest ≤ each)
    (hcopies : each * count ≤ target ∨ count = least) :
    evenCount result least (.ofExact count) target = count := by
  have hlargest : Size.largest = Size.modulus - 1 := rfl
  have hleast : least ≤ count := hcount ▸ Nat.le_max_right ..
  rw [evenCount, Bound.ofExact_of_lt hsize, Bound.finite?, Option.getD_some, hmin]
  rcases hcopies with hle | rfl
  · -- A single copy takes the whole target.
    have hone : count ≤ 1 :=
      Nat.le_of_mul_le_mul_left (show each * count ≤ each * 1 by omega) (by omega)
    obtain rfl : count = 1 := by omega
    have hbody := body.min_lt
    have hsome : 0 < target / Max.max body.min 1 := Nat.div_pos (by omega) (by omega)
    omega
  · omega

/-- What copies that share the target evenly become when they are fitted again. -/
theorem fitRepetition_again_even (htarget : target < Size.modulus) (hleast : least < Size.modulus)
    (hmin : result.min = body.min)
    (hlong : ¬ target < Size.mulCapped least body.min)
    {count each : Nat} (hcount : count = evenCount body least most target) (hpos : 0 < count)
    (heach : each = Max.max (target / count) body.min)
    (hkeeps : each < Size.largest → result.max.IsWithin each)
    (hfits : ¬ (result.max * .ofExact count).IsWithin target) :
    ∃ length, fitRepetition result least (.ofExact count) target = (.ofExact count, length) ∧
      (length = each ∨ result.max.IsWithin length) := by
  have hlargest : Size.largest = Size.modulus - 1 := rfl
  have hsize : count < Size.modulus := by
    have := Nat.div_le_self target (Max.max body.min 1)
    have : count ≤ Max.max (target / Max.max body.min 1) least := by
      rw [hcount, evenCount]
      omega
    omega
  have hcopies := mul_evenCount_le hlong hcount
  rw [← heach] at hcopies
  have hlong' : ¬ target < Size.mulCapped least result.min := hmin ▸ hlong
  cases hmax : result.max with
  | finite limit isSize =>
    have hwithin : limit ≤ each := by
      by_contra hlt
      have hwithin := hkeeps (by omega)
      rw [hmax] at hwithin
      exact hlt hwithin
    have hmore : ¬ limit * count ≤ target := by
      rwa [hmax, Bound.ofExact_of_lt hsize, isWithin_mul_iff htarget] at hfits
    obtain ⟨rfl, htop, -⟩ := hcopies.resolve_left fun hle ↦
      hmore (Nat.le_trans (Nat.mul_le_mul_right count hwithin) hle)
    exact ⟨limit, fitRepetition_of_largest_le hmax htarget hsize htop hlong' hfits,
      .inr (Nat.le_refl limit)⟩
  | unbounded =>
    have hlarge : Size.largest ≤ each := by
      by_contra hlt
      have hwithin := hkeeps (by omega)
      rw [hmax] at hwithin
      cases hwithin
    have hagain :=
      evenCount_again htarget hmin hcount hsize hpos hlarge (hcopies.imp_right And.left)
    refine ⟨each, ?_, .inl rfl⟩
    rw [fitRepetition_of_even hfits hlong' (fullCopies_of_unbounded hmax), hagain,
      if_neg (Nat.ne_of_gt hpos), hmin, ← heach]

/-- Copies that fit the target get the length of the first time, or a length that the bound of the
body does not exceed, when they are fitted again. -/
theorem fitRepetition_again_of_isWithin (hone : most.Allows (Max.max least 1))
    (hmin : result.min = body.min) {count : Bound} {each : Nat}
    (hfirst : fitRepetition body least most target = (count, each))
    (hkeeps : body.max.IsWithin each → result.max.IsWithin each)
    (hagain : (result.max * count.raise least).IsWithin target) :
    result.max.finite?.getD result.min = each ∨
      result.max.IsWithin (result.max.finite?.getD result.min) := by
  rcases Bound.eq_zero_or_allows_one (count.raise least) with hzero | hsome
  · have hnone := fitRepetition_eq_zero hone (by rw [hfirst]; exact hzero)
    rw [hfirst] at hnone
    cases hmax : result.max with
    | finite limit isSize => exact .inr (Nat.le_refl limit)
    | unbounded =>
      refine hnone.imp (fun heach ↦ hmin.trans heach.symm) fun hwithin ↦ ?_
      have hwithin := hkeeps hwithin
      rw [hmax] at hwithin
      cases hwithin
  · exact .inr (isWithin_copy hsome hagain)

/-- A number of copies that was chosen before is chosen again, for copies of the same length or of
a length that the bound of the body does not exceed. The largest size is no length to which a copy
has to keep, unless it is the full length. -/
theorem fitRepetition_again (hone : most.Allows (Max.max least 1)) (hleast : least < Size.modulus)
    (htarget : target < Size.modulus) (hmin : result.min = body.min) {count : Bound} {each : Nat}
    (hfirst : fitRepetition body least most target = (count, each))
    (hkeeps : each < Size.largest ∨ body.max.IsWithin each → result.max.IsWithin each) :
    ∃ again length, fitRepetition result least (count.raise least) target = (again, length) ∧
      again.raise least = count.raise least ∧ (length = each ∨ result.max.IsWithin length) := by
  by_cases hagain : (result.max * count.raise least).IsWithin target
  · exact ⟨_, _, fitRepetition_of_isWithin least hagain,
      Bound.raise_of_allows (Bound.allows_raise ..),
      fitRepetition_again_of_isWithin hone hmin hfirst
      (fun hwithin ↦ hkeeps (.inr hwithin)) hagain⟩
  by_cases hfits : (body.max * most).IsWithin target
  · -- The body is at its full length, so the copies still fit.
    rw [fitRepetition_of_isWithin least hfits] at hfirst
    cases hfirst
    have hcopy := isWithin_copy (hone.mono (Nat.le_max_right ..)) hfits
    have hkept := hkeeps (.inr hcopy)
    rw [Bound.raise_of_allows (hone.mono (Nat.le_max_left ..))] at hagain
    refine absurd (hfits.of_le (Bound.mul_le_mul_left ?_ most)) hagain
    cases hmax : body.max with
    | finite limit isSize =>
      rw [hmax] at hkept
      rw [← Bound.ofExact_of_lt isSize, ← Bound.isWithin_iff isSize]
      exact hkept
    | unbounded => exact Bound.le_unbounded _
  by_cases hshort : target < Size.mulCapped least body.min
  · rw [fitRepetition_of_short hfits hshort] at hfirst
    cases hfirst
    rw [Bound.raise_of_allows (Bound.allows_ofExact_self least)] at hagain ⊢
    refine ⟨_, _, fitRepetition_of_short hagain (hmin ▸ hshort), ?_, .inl hmin⟩
    exact Bound.raise_of_allows (Bound.allows_ofExact_self least)
  cases hfull : fitRepetition.fullCopies body least target with
  | some full =>
    rw [fitRepetition_of_full hfits hshort hfull] at hfirst
    cases hfirst
    have hraise := Bound.raise_of_allows ((Bound.allows_ofExact_self
      (Max.max (Min.min (target / each) (most.finite?.getD Size.largest)) least)).mono
        (Nat.le_max_right ..))
    rw [hraise] at hagain ⊢
    obtain ⟨isSize, hmax, -⟩ := fitRepetition.fullCopies_eq_some hfull
    have hkept := hkeeps (.inr (hmax ▸ Nat.le_refl each))
    obtain ⟨length, hfit, hlength⟩ :=
      fitRepetition_again_full htarget hleast hmin hshort hfull hkept rfl hagain
    exact ⟨_, _, hfit, hraise, .inr hlength⟩
  | none =>
    rw [fitRepetition_of_even hfits hshort hfull] at hfirst
    cases hfirst
    have hraise := Bound.raise_of_allows ((Bound.allows_ofExact_self
      (evenCount body least most target)).mono (Nat.le_max_right ..))
    rw [hraise] at hagain ⊢
    have hpos : evenCount body least most target ≠ 0 := by
      intro hzero
      rw [hzero] at hagain
      exact hagain ((Bound.mul_zero result.max).symm ▸ Nat.zero_le target)
    rw [if_neg hpos] at hkeeps ⊢
    obtain ⟨length, hfit, hlength⟩ := fitRepetition_again_even htarget hleast hmin hshort rfl
      (Nat.pos_of_ne_zero hpos) rfl (fun hsmall ↦ hkeeps (.inl hsmall)) hagain
    exact ⟨_, _, hfit, hraise, hlength⟩

end Exemplar.Extent
