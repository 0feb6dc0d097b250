import Exemplar.Extent.Budget
import Exemplar.Proofs.Length.Extent
import Mathlib.Algebra.GroupWithZero.Nat
import Mathlib.Algebra.Order.BigOperators.Group.List
import Mathlib.Algebra.Order.Group.Nat
import Mathlib.Data.List.Forall2

/-!
# Budgets are kept

A target that is split among parts in a row gives every part its least length, and the budgets add
up to no more than the target (`sum_splitTarget_le`). The copies that are chosen for a repetition
are long enough for the body, and all of them together are no longer than the target
(`mul_fitRepetition_le`). The largest size is left out, because a least length may have been cut
off there.
-/

namespace Exemplar.Extent

open List (Forall₂)

/-- The lengths up to a limit. -/
def upTo (limit : Nat) : Extent := ⟨0, .ofExact limit, Size.zero_lt_modulus⟩

/-- The limit zero admits the empty string only. -/
theorem upTo_zero : upTo 0 = zero :=
  eq_of_ends rfl (Bound.ofExact_of_lt Size.zero_lt_modulus)

/-- Strings in a row that keep to their limits keep to the sum of the limits. -/
theorem upTo_followedBy (first second : Nat) :
    (upTo first).followedBy (upTo second) = upTo (first + second) :=
  eq_of_ends (Nat.zero_min _) (Bound.ofExact_add_ofExact ..)

/-- An extent keeps to a limit when its bound does. -/
theorem within_upTo {extent : Extent} {limit : Nat} :
    extent.Within (upTo limit) ↔ extent.max ≤ .ofExact limit :=
  ⟨Within.ceiling_le, fun h ↦ ⟨Nat.zero_le _, h⟩⟩

/-- A larger limit admits more lengths. -/
theorem upTo_mono {limit larger : Nat} (h : limit ≤ larger) : (upTo limit).Within (upTo larger) :=
  within_upTo.2 (Bound.ofExact_mono h)

/-- The empty string keeps to every limit. -/
theorem zero_within_upTo (limit : Nat) : zero.Within (upTo limit) :=
  upTo_zero ▸ upTo_mono (Nat.zero_le limit)

/-- A text keeps to every limit that its length does not exceed. -/
theorem ofLength_within_upTo {length limit : Nat} (h : length ≤ limit) :
    (ofLength length).Within (upTo limit) :=
  within_upTo.2 (Bound.ofExact_mono h)

/-- Options that keep to a limit keep to it together. -/
theorem anyOf_within_upTo {options : List Extent} {limit : Nat}
    (h : ∀ option ∈ options, option.Within (upTo limit)) :
    (anyOf options).Within (upTo limit) := by
  induction options with
  | nil => exact zero_within_upTo limit
  | cons option options ih =>
    obtain ⟨hoption, hrest⟩ := List.forall_mem_cons.1 h
    cases options with
    | nil => exact hoption
    | cons other options => exact within_upTo.2 (max_le hoption.ceiling_le (ih hrest).ceiling_le)

/-! ## Parts in a row -/

/-- The least lengths of parts in a row add up, as far as there are sizes. -/
theorem floorOf_eq (parts : List Extent) :
    floorOf parts = Min.min (parts.map (·.min)).sum Size.largest := by
  induction parts with
  | nil => rfl
  | cons part parts ih =>
    show Min.min (part.min + floorOf parts) Size.largest = _
    rw [ih, List.map_cons, List.sum_cons]
    omega

/-- Topping up changes no number of shares. -/
theorem length_topUp (shares : List (Nat × Nat)) (remainder : Nat) :
    (topUp shares remainder).length = shares.length := by
  induction shares generalizing remainder with
  | nil => rfl
  | cons share shares ih =>
    obtain ⟨share, room⟩ := share
    rw [topUp]
    split <;> rw [List.length_cons, ih, List.length_cons]

/-- Topping up hands out no more than the remainder. -/
theorem sum_topUp_le (shares rooms : List Nat) (remainder : Nat) :
    (topUp (shares.zip rooms) remainder).sum ≤ shares.sum + remainder := by
  induction shares generalizing rooms remainder with
  | nil => exact Nat.zero_le _
  | cons share shares ih =>
    cases rooms with
    | nil => exact Nat.zero_le _
    | cons room rooms =>
      rw [List.zip_cons_cons, topUp]
      split
      · have := ih rooms (remainder - 1)
        simp only [List.sum_cons]
        omega
      · have := ih rooms remainder
        simp only [List.sum_cons]
        omega

/-- Shares that are rounded down do not exceed what is shared out. -/
theorem sum_shares_le (slack : Nat) {rooms : List Nat} (h : Size.total rooms ≠ 0) :
    (rooms.map fun room ↦ slack * room / Size.total rooms).sum ≤ slack := by
  -- The total is not the sum over the rooms that are left, so the induction is for any total.
  have hshares (total : Nat) (rooms : List Nat) :
      (rooms.map fun room ↦ slack * room / total).sum * total ≤ slack * Size.total rooms := by
    induction rooms with
    | nil => simp
    | cons room rooms ih =>
      show (slack * room / total + (rooms.map _).sum) * total ≤ slack * (room + Size.total rooms)
      have := Nat.div_mul_le_self (slack * room) total
      rw [Nat.add_mul, Nat.mul_add]
      omega
  exact Nat.le_of_mul_le_mul_right (hshares _ rooms) (Nat.pos_of_ne_zero h)

/-- A target is split into one budget for each part. -/
theorem length_splitTarget (parts : List Extent) (target : Nat) :
    (splitTarget parts target).length = parts.length := by
  unfold splitTarget
  simp only
  split
  · rw [List.length_map]
  · simp [length_topUp]

/-- Every part gets its least length. -/
theorem min_le_splitTarget (parts : List Extent) (target : Nat) :
    Forall₂ (fun part budget ↦ part.min ≤ budget) parts (splitTarget parts target) := by
  rw [List.forall₂_iff_get]
  refine ⟨(length_splitTarget parts target).symm, fun index hpart hbudget ↦ ?_⟩
  simp only [splitTarget, List.get_eq_getElem]
  split
  · simp
  · simp

/-- The budgets of parts in a row add up to no more than the target, unless their least length was
cut off. -/
theorem sum_splitTarget_le {parts : List Extent} {target : Nat} (hfloor : floorOf parts ≤ target)
    (hexact : floorOf parts < Size.largest) : (splitTarget parts target).sum ≤ target := by
  have hsum : (parts.map (·.min)).sum = floorOf parts := by
    rw [floorOf_eq] at hexact ⊢
    omega
  have hzip (parts : List Extent) (shares : List Nat) :
      (List.zipWith (fun part share ↦ part.min + share) parts shares).sum ≤
        (parts.map (·.min)).sum + shares.sum := by
    induction parts generalizing shares with
    | nil => simp
    | cons part parts ih =>
      cases shares with
      | nil => simp
      | cons share shares =>
        have := ih shares
        simp only [List.zipWith_cons_cons, List.map_cons, List.sum_cons]
        omega
  unfold splitTarget
  simp only
  split
  · exact hsum ▸ hfloor
  · rename_i htotal
    have hshares := sum_shares_le (target - floorOf parts) htotal
    refine Nat.le_trans (hzip ..) (Nat.le_trans (Nat.add_le_add_left (sum_topUp_le ..) _) ?_)
    generalize List.map _ (List.map _ parts) = shares at hshares
    have : Size.total shares = shares.sum := rfl
    omega

/-! ## Repetitions -/

/-- The number of copies that is chosen for a repetition is one that its bound allows. -/
theorem allows_of_allows_fitRepetition {body : Extent} {least target count : Nat} {most : Bound}
    (hmost : most.Allows least) (hleast : least < Size.modulus)
    (h : ((fitRepetition body least most target).1.raise least).Allows count) :
    most.Allows count := by
  rcases Bound.allows_of_allows_raise hleast h with h | h
  · -- A count that was fitted is the least one or does not exceed the ceiling.
    have hfit :
        ∀ fitted, (Bound.ofExact (Max.max (Min.min fitted (most.finite?.getD Size.largest))
        least)).Allows count → most.Allows count := by
      intro fitted hcount
      cases most with
      | finite limit isSize =>
        have hmost : least ≤ limit := hmost
        rw [Bound.allows_ofExact] at hcount
        simp only [Bound.finite?, Option.getD_some] at hcount
        show count ≤ limit
        have := hcount (by omega)
        omega
      | unbounded => trivial
    unfold fitRepetition at h
    split at h
    · exact h
    · split at h
      · exact hmost.mono (Bound.allows_ofExact.1 h hleast)
      · simp only at h
        split at h
        · exact hfit _ h
        · rw [Nat.min_right_comm] at h
          exact hfit _ h
  · exact hmost.mono h

/-- A body whose copies are written at full length has that length. -/
theorem fitRepetition.fullCopies_eq_some {body : Extent} {least target each : Nat}
    (h : fullCopies body least target = some each) :
    ∃ isSize, body.max = .finite each isSize ∧ 0 < each ∧
      Size.mulCapped least each ≤ target := by
  unfold fullCopies at h
  split at h
  · rename_i limit isSize hmax
    split at h
    · rename_i hfits
      cases h
      exact ⟨isSize, hmax, hfits⟩
    · cases h
  · cases h

variable {body : Extent} {least target : Nat} {most : Bound}

/-- The copies that are chosen for a repetition are long enough for the body. -/
theorem min_le_fitRepetition (least : Nat) (most : Bound) (target : Nat) (hvalid : body.Valid) :
    body.min ≤ (fitRepetition body least most target).2 := by
  have hfull {each : Nat} {isSize : each < Size.modulus} (hmax : body.max = .finite each isSize) :
      body.min ≤ each := by
    rw [Valid, hmax] at hvalid
    exact hvalid
  unfold fitRepetition
  split
  · cases hmax : body.max with
    | finite limit isSize => exact hfull hmax
    | unbounded => exact Nat.le_refl _
  · split
    · exact Nat.le_refl _
    · simp only
      split
      · rename_i each heach
        obtain ⟨isSize, hmax, -⟩ := fitRepetition.fullCopies_eq_some heach
        exact hfull hmax
      · show body.min ≤ ite _ _ _
        split
        · exact Nat.le_refl _
        · exact Nat.le_max_right ..

/-- The larger of two numbers of copies fits when both numbers do. -/
theorem mul_max_le {each fitted count : Nat} (hfitted : each * fitted ≤ target)
    (hcount : each * count ≤ target) : each * Max.max fitted count ≤ target := by
  rw [← Nat.mul_max_mul_left]
  exact Nat.max_le.2 ⟨hfitted, hcount⟩

/-- Copies of a number of characters that fit the target keep to it. -/
theorem mul_raise_le {each count : Nat} (hleast : least ≤ count) (heach : each < Size.modulus)
    (hcount : count < Size.modulus) (h : each * count ≤ target) :
    Bound.ofExact each * (Bound.ofExact count).raise least ≤ .ofExact target := by
  rw [Bound.raise_of_allows ((Bound.allows_ofExact_self count).mono hleast),
    Bound.ofExact_of_lt heach, Bound.ofExact_of_lt hcount, Bound.finite_mul_finite]
  exact Bound.ofExact_mono h

/-- All copies that are chosen for a repetition together keep to the target, if it may be repeated
at all. -/
theorem mul_fitRepetition_le (hmost : most.Allows (Max.max least 1)) (hleast : least < Size.modulus)
    (hfloor : (body.repeated least most).min ≤ target) (htarget : target < Size.largest) :
    Bound.ofExact (fitRepetition body least most target).2 *
      (fitRepetition body least most target).1.raise least ≤ .ofExact target := by
  have hlargest : Size.largest = Size.modulus - 1 := rfl
  have hfloor : body.min * least ≤ target := by
    have : Min.min (body.min * least) Size.largest ≤ target := hfloor
    omega
  have hmin := body.min_lt
  unfold fitRepetition
  split
  · rename_i hfits
    rw [Bound.isWithin_iff (by omega)] at hfits
    rw [Bound.raise_of_allows (hmost.mono (Nat.le_max_left ..))]
    cases hmax : body.max with
    | finite limit isSize =>
      rw [hmax] at hfits
      simpa [Bound.finite?, Bound.ofExact_of_lt isSize] using hfits
    | unbounded =>
      -- Without a bound on the body only zero copies would fit, but one copy is allowed.
      have hone : (body.max * most).Allows ((target + 1) * 1) :=
        Bound.Allows.mul (hmax ▸ trivial) (hmost.mono (Nat.le_max_right ..))
      have := Bound.allows_ofExact.1 (hone.of_le hfits) (by omega)
      omega
  · split
    · rename_i hshort
      rw [Size.mulCapped, Nat.mul_comm] at hshort
      omega
    · simp only
      split
      · rename_i each heach
        obtain ⟨isSize, -, hpos, hfull⟩ := fitRepetition.fullCopies_eq_some heach
        have hfull : each * least ≤ target := by
          rw [Size.mulCapped, Nat.mul_comm] at hfull
          omega
        have hfit : each * (target / each) ≤ target := Nat.mul_div_le target each
        have := Nat.div_le_self target each
        refine mul_raise_le (Nat.le_max_right ..) isSize (by omega) (mul_max_le ?_ hfull)
        exact Nat.le_trans (Nat.mul_le_mul_left _ (Nat.min_le_left ..)) hfit
      · simp only
        generalize Min.min (Max.max (Size.squareRoot target) 1) _ = wanted
        have hfit : body.min * (target / Max.max body.min 1) ≤ target :=
          Nat.le_trans (Nat.mul_le_mul_right _ (Nat.le_max_left ..)) (Nat.mul_div_le ..)
        have hcopies : body.min * Max.max (Min.min wanted (target / Max.max body.min 1)) least ≤
            target :=
          mul_max_le (Nat.le_trans (Nat.mul_le_mul_left _ (Nat.min_le_right ..)) hfit) hfloor
        have hcount : Max.max (Min.min wanted (target / Max.max body.min 1)) least <
            Size.modulus := by
          have := Nat.div_le_self target (Max.max body.min 1)
          omega
        have hle := Nat.le_max_right (Min.min wanted (target / Max.max body.min 1)) least
        generalize Max.max (Min.min wanted _) least = count at hcopies hcount hle ⊢
        split
        · rename_i hzero
          exact mul_raise_le hle hmin hcount (hzero ▸ Nat.zero_le _)
        · have := Nat.div_le_self target count
          refine mul_raise_le hle (by omega) hcount ?_
          rw [Nat.mul_comm]
          exact mul_max_le (Nat.mul_div_le target count) (by rwa [Nat.mul_comm])

end Exemplar.Extent
