import Exemplar.Proofs.Random.Period
import Exemplar.Size
import Mathlib.Data.Finset.Card
import Mathlib.Order.Interval.Finset.Nat

/-!
# Bounded draws

A draw below a bound takes numbers of 31 bits until one of them lies in a complete block of the
bound, and returns its place in the block. A power of two accepts every number, and returns its
leading bits.

The first number that is accepted comes within one round through all states, so every bounded draw
ends, whatever the state is (`drawBetween_ends`). The complete blocks have every place equally
often, and so do the leading bits: a draw is uniform (`drawBelow_uniform`).
-/

namespace Exemplar.Lcg

open Function

variable {bound bits : Nat}

/-! ## Complete blocks -/

/-- A number that has no more than 32 bits is not negative in 32 bits when it has no more than
31. -/
theorem bmod_nonneg_iff {number : Nat} (h : number < 0x100000000) :
    0 ≤ Int.bmod number 0x100000000 ↔ number < 0x80000000 := by
  rw [Int.bmod_def]
  omega

/-- A number is accepted when it lies in a complete block. -/
theorem accepts_iff (hpos : 0 < bound) (hbound : bound < 0x80000000) (hbits : bits < 0x80000000) :
    accepts bound bits = true ↔ bits < bound * (0x80000000 / bound) := by
  have hstart : bits - bits % bound = bits / bound * bound := by
    have := Nat.div_add_mod bits bound
    rw [Nat.mul_comm] at this
    omega
  have hle : bits / bound * bound ≤ bits := Nat.div_mul_le_self bits bound
  -- The last number of the block has no more than 32 bits, so its sign tells whether it has 31
  -- bits.
  have hsign : accepts bound bits = true ↔ bits / bound * bound + (bound - 1) < 0x80000000 := by
    unfold accepts
    rw [decide_eq_true_iff, bmod_nonneg_iff (by omega), hstart]
  have hblock : bits / bound * bound + (bound - 1) < 0x80000000 ↔
      (bits / bound + 1) * bound ≤ 0x80000000 := by
    rw [Nat.succ_mul]
    omega
  rw [hsign, hblock, ← Nat.le_div_iff_mul_le hpos, Nat.succ_le_iff, Nat.div_lt_iff_lt_mul hpos,
    Nat.mul_comm]

/-- A positive number of 31 bits has a single set bit when it is a power of two. -/
theorem hasSingleBit_iff (hpos : 0 < bound) (hbound : bound < 0x80000000) :
    hasSingleBit bound = true ↔ bound.isPowerOfTwo := by
  have hnegative : 0x100000000 - bound = 2 ^ 32 - (bound - 1 + 1) := by
    omega
  have hlt : bound < 2 ^ 32 := by omega
  rw [hasSingleBit, beq_iff_eq, hnegative,
    ← Nat.and_sub_one_eq_zero_iff_isPowerOfTwo (Nat.ne_of_gt hpos)]
  -- The negative of a number has the bits that its predecessor has not.
  have hbit (i : Nat) : (bound &&& (2 ^ 32 - (bound - 1 + 1))).testBit i =
      (bound.testBit i && (decide (i < 32) && !(bound - 1).testBit i)) := by
    rw [Nat.testBit_and, Nat.testBit_two_pow_sub_succ (by omega)]
  constructor
  · intro h
    refine Nat.eq_of_testBit_eq fun i ↦ ?_
    have hi := hbit i
    rw [h] at hi
    rw [Nat.testBit_and, Nat.zero_testBit]
    cases hone : bound.testBit i <;> simp_all
  · intro h
    refine Nat.eq_of_testBit_eq fun i ↦ ?_
    have hi : (bound &&& (bound - 1)).testBit i = false := by rw [h, Nat.zero_testBit]
    rw [Nat.testBit_and] at hi
    rw [hbit]
    cases hone : bound.testBit i with
    | false => rfl
    | true =>
      have hsmall : i < 32 := (Nat.pow_lt_pow_iff_right (by decide)).1
        (Nat.lt_of_le_of_lt (Nat.ge_two_pow_of_testBit hone) hlt)
      simp_all

/-! ## The loop -/

/-- A number that is accepted at once ends the loop. -/
theorem drawAccepted?_eq_of_accepted {fuel : Nat} {source : Lcg} (hfuel : 0 < fuel)
    (haccepted : accepts bound (source.next.leading 31) = true) :
    drawAccepted? bound fuel source = some (source.next.leading 31 % bound, source.next) := by
  obtain ⟨fuel, rfl⟩ : ∃ rest, fuel = rest + 1 := ⟨fuel - 1, by omega⟩
  simp only [drawAccepted?, haccepted, if_true]

/-- The loop passes over the numbers that are rejected, and takes the first one that is accepted. -/
theorem drawAccepted?_eq {count fuel : Nat} {source : Lcg}
    (hrejected : ∀ i < count, accepts bound ((next^[i] source.next).leading 31) = false)
    (haccepted : accepts bound ((next^[count] source.next).leading 31) = true)
    (hfuel : count < fuel) :
    drawAccepted? bound fuel source =
      some ((next^[count] source.next).leading 31 % bound, next^[count] source.next) := by
  obtain ⟨fuel, rfl⟩ : ∃ rest, fuel = rest + 1 := ⟨fuel - 1, by omega⟩
  induction count generalizing fuel source with
  | zero =>
    rw [iterate_zero_apply] at haccepted ⊢
    exact drawAccepted?_eq_of_accepted (Nat.succ_pos fuel) haccepted
  | succ count ih =>
    obtain ⟨fuel, rfl⟩ : ∃ rest, fuel = rest + 1 := ⟨fuel - 1, by omega⟩
    have hfirst := hrejected 0 (Nat.succ_pos count)
    rw [iterate_zero_apply] at hfirst
    have hothers (i : Nat) (hi : i < count) :
        accepts bound ((next^[i] source.next.next).leading 31) = false := by
      rw [← iterate_succ_apply]
      exact hrejected (i + 1) (Nat.succ_lt_succ hi)
    rw [iterate_succ_apply] at haccepted ⊢
    rw [← ih hothers haccepted fuel (by omega), drawAccepted?]
    simp only [hfirst, Bool.false_eq_true, if_false]

/-- A number is accepted before all states have been visited. -/
theorem exists_first_accepted (hpos : 0 < bound) (hbound : bound < 0x80000000) (source : Lcg) :
    ∃ count < 0x1000000000000,
      (∀ i < count, accepts bound ((next^[i] source.next).leading 31) = false) ∧
        accepts bound ((next^[count] source.next).leading 31) = true := by
  -- The state zero is visited, and its leading bits are the first number of the first block.
  obtain ⟨visit, hlt, hvisit⟩ := exists_iterate_eq source.next (ofNat 0)
  have haccepted : accepts bound ((next^[visit] source.next).leading 31) = true := by
    rw [hvisit]
    refine (accepts_iff hpos hbound (by decide)).2 (Nat.mul_pos hpos ?_)
    exact Nat.div_pos (Nat.le_of_lt hbound) hpos
  have hexists : ∃ count, accepts bound ((next^[count] source.next).leading 31) = true :=
    ⟨visit, haccepted⟩
  refine ⟨Nat.find hexists, Nat.lt_of_le_of_lt (Nat.find_min' hexists haccepted) hlt, ?_,
    Nat.find_spec hexists⟩
  intro i hi
  exact Bool.eq_false_iff.2 (Nat.find_min hexists hi)

/-- The loop ends for every state: from some number of rounds on, more of them are never needed. -/
theorem exists_drawAccepted?_eq (hpos : 0 < bound) (hbound : bound < 0x80000000) (source : Lcg) :
    ∃ rejected < 0x1000000000000, ∃ value < bound, ∀ fuel > rejected,
      drawAccepted? bound fuel source = some (value, next^[rejected + 1] source) := by
  obtain ⟨rejected, hlt, hrejected, haccepted⟩ := exists_first_accepted hpos hbound source
  refine ⟨rejected, hlt, (next^[rejected] source.next).leading 31 % bound,
    Nat.mod_lt _ hpos, ?_⟩
  intro fuel hfuel
  rw [iterate_succ_apply]
  exact drawAccepted?_eq hrejected haccepted hfuel

/-- A rejected number leaves the draw to the next state. -/
theorem drawBelow_eq_of_rejected (hpos : 0 < bound) (hbound : bound < 0x80000000) {source : Lcg}
    (hloop : hasSingleBit bound = false)
    (hrejected : accepts bound (source.next.leading 31) = false) :
    source.drawBelow bound = source.next.drawBelow bound := by
  obtain ⟨count, hcount, hothers, haccepted⟩ := exists_first_accepted hpos hbound source
  cases count with
  | zero =>
    rw [iterate_zero_apply] at haccepted
    exact absurd haccepted (by simp [hrejected])
  | succ count =>
    have hfirst := drawAccepted?_eq hothers haccepted hcount
    have hrest (i : Nat) (hi : i < count) :
        accepts bound ((next^[i] source.next.next).leading 31) = false := by
      rw [← iterate_succ_apply]
      exact hothers (i + 1) (Nat.succ_lt_succ hi)
    rw [iterate_succ_apply] at haccepted hfirst
    have hnext := drawAccepted?_eq hrest haccepted (Nat.lt_of_succ_lt hcount)
    simp only [drawBelow, hloop, Bool.false_eq_true, if_false, hfirst, hnext, Option.getD_some]

/-! ## Bounded draws end -/

/-- A draw below a bound takes at least one state and at most all of them. -/
theorem exists_drawBelow_eq (hpos : 0 < bound) (hbound : bound < 0x80000000) (source : Lcg) :
    ∃ value < bound, ∃ draws > 0, draws ≤ 0x1000000000000 ∧
      source.drawBelow bound = (value, next^[draws] source) := by
  cases hloop : hasSingleBit bound with
  | true =>
    refine ⟨_, drawBelow_lt hpos source, 1, Nat.one_pos, by omega, ?_⟩
    simp only [drawBelow, hloop, if_true, iterate_one]
  | false =>
    obtain ⟨rejected, hlt, value, hvalue, hdraw⟩ := exists_drawAccepted?_eq hpos hbound source
    refine ⟨value, hvalue, rejected + 1, Nat.succ_pos rejected, hlt, ?_⟩
    simp only [drawBelow, hloop, Bool.false_eq_true, if_false, hdraw _ hlt, Option.getD_some]

/-- A draw from a range ends for every state, in the range and at a state that is reached by draws.
All states are visited within one round, so the loop behind a range of 31 bits ends for every
bound; neither the product for a power of two nor the number that is returned leaves its size. -/
theorem drawBetween_ends {low high : Nat} (h : low < high) (hhigh : high < Size.modulus)
    (source : Lcg) :
    (∀ other, ∃ count < 0x1000000000000, next^[count] source = other) ∧
      (∀ bound, 0 < bound → bound < 0x80000000 →
        bound * source.next.leading 31 < 0x8000000000000000 ∧
          ∃ rejected < 0x1000000000000, ∃ value < bound, ∀ fuel > rejected,
            drawAccepted? bound fuel source = some (value, next^[rejected + 1] source)) ∧
      ∃ value draws, 0 < draws ∧ draws ≤ 0x1000000000000 ∧
        drawBetween low high source = (low + value, next^[draws] source) ∧
        low + value < high ∧ low + value < Size.modulus ∧
        (drawBetween low high source).2.state < 0x1000000000000 := by
  have hdraw : ∃ value draws, 0 < draws ∧ draws ≤ 0x1000000000000 ∧ low + value < high ∧
      drawBetween low high source = (low + value, next^[draws] source) := by
    rcases Nat.lt_or_ge (high - low) 0x80000000 with hspan | hspan
    · obtain ⟨value, hvalue, draws, hpos, hdraws, hdraw⟩ :=
        exists_drawBelow_eq (Nat.sub_pos_of_lt h) hspan source
      refine ⟨value, draws, hpos, hdraws, by omega, ?_⟩
      simp only [drawBetween, if_neg (Nat.not_le.2 h), if_pos hspan, hdraw]
    · have hmem := RandomSource.reduce_mem h source.drawWord.1
      refine ⟨source.drawWord.1.natAbs % (high - low), 2, by omega, by omega, hmem.2, ?_⟩
      simp only [drawBetween, if_neg (Nat.not_le.2 h), if_neg (Nat.not_lt.2 hspan),
        RandomSource.drawByRemainder]
      rfl
  refine ⟨exists_iterate_eq source, ?_, ?_⟩
  · intro bound hpos hbound
    have hleading : source.next.leading 31 < 0x80000000 := source.next.leading_lt (by decide)
    have hproduct := Nat.mul_lt_mul'' hbound hleading
    exact ⟨by omega, exists_drawAccepted?_eq hpos hbound source⟩
  · obtain ⟨value, draws, hpos, hdraws, hlt, hdraw⟩ := hdraw
    exact ⟨value, draws, hpos, hdraws, hdraw, hlt, Nat.lt_trans hlt hhigh,
      (drawBetween low high source).2.state_lt⟩

/-- The first number of the source of the seed zero is rejected for a bound that has one complete
block. -/
theorem drawBetween_ends_rejected :
    accepts 1073741825 ((ofSeed 0).next.leading 31) = false ∧
      ∃ value draws, 0 < draws ∧ draws ≤ 0x1000000000000 ∧
        drawBetween 5 1073741830 (ofSeed 0) = (5 + value, next^[draws] (ofSeed 0)) ∧
        5 + value < 1073741830 ∧ 5 + value < Size.modulus ∧
        (drawBetween 5 1073741830 (ofSeed 0)).2.state < 0x1000000000000 :=
  ⟨by decide, (drawBetween_ends (show 5 < 1073741830 by decide)
    (show 1073741830 < Size.modulus by decide) (ofSeed 0)).2.2⟩

/-! ## Bounded draws are uniform -/

/-- The number below a bound that a number of 31 bits is taken for, unless it is rejected. -/
def taken? (bound bits : Nat) : Option Nat :=
  if hasSingleBit bound then some ((bound * bits) >>> 31)
  else if accepts bound bits then some (bits % bound)
  else none

/-- A draw below a bound returns what the next number is taken for, or goes on behind it. -/
theorem drawBelow_eq (hpos : 0 < bound) (hbound : bound < 0x80000000) (source : Lcg) :
    source.drawBelow bound = (taken? bound (source.next.leading 31)).elim
      (source.next.drawBelow bound) fun value ↦ (value, source.next) := by
  cases hloop : hasSingleBit bound with
  | true => simp only [taken?, drawBelow, hloop, if_true, Option.elim_some]
  | false =>
    cases hfirst : accepts bound (source.next.leading 31) with
    | true =>
      have hdraw := drawAccepted?_eq_of_accepted (show 0 < 0x1000000000000 by omega) hfirst
      simp only [taken?, drawBelow, hloop, hfirst, hdraw, Bool.false_eq_true, if_false, if_true,
        Option.elim_some, Option.getD_some]
    | false =>
      simp only [taken?, hloop, hfirst, Bool.false_eq_true, if_false, Option.elim_none]
      exact drawBelow_eq_of_rejected hpos hbound hloop hfirst

/-- The leading bits of a number are its place among blocks of equal size. -/
theorem mul_shiftRight_eq (hpower : bound.isPowerOfTwo) (hbound : bound < 0x80000000) (bits : Nat) :
    bound * (0x80000000 / bound) = 0x80000000 ∧
      (bound * bits) >>> 31 = bits / (0x80000000 / bound) := by
  obtain ⟨exponent, rfl⟩ := hpower
  have hexponent : exponent < 31 := (Nat.pow_lt_pow_iff_right (by decide)).1 hbound
  have hpos : 0 < 2 ^ exponent := Nat.two_pow_pos exponent
  have hwhole : 2 ^ exponent * 2 ^ (31 - exponent) = 0x80000000 := by
    rw [← Nat.pow_add, Nat.add_sub_cancel' (Nat.le_of_lt hexponent)]
  have hsize : 0x80000000 / 2 ^ exponent = 2 ^ (31 - exponent) := by
    rw [← hwhole, Nat.mul_div_cancel_left _ hpos]
  have hshift : (2 ^ exponent * bits) >>> 31 = 2 ^ exponent * bits / 0x80000000 :=
    Nat.shiftRight_eq_div_pow _ 31
  rw [hsize, hshift, ← hwhole, Nat.mul_div_mul_left _ _ hpos]
  exact ⟨rfl, rfl⟩

/-- A number is taken when it lies in a complete block. -/
theorem isSome_taken?_iff (hpos : 0 < bound) (hbound : bound < 0x80000000)
    (hbits : bits < 0x80000000) :
    (taken? bound bits).isSome ↔ bits < bound * (0x80000000 / bound) := by
  cases hloop : hasSingleBit bound with
  | true =>
    have hwhole := (mul_shiftRight_eq ((hasSingleBit_iff hpos hbound).1 hloop) hbound bits).1
    simp only [taken?, hloop, if_true, Option.isSome_some, true_iff, hwhole]
    exact hbits
  | false =>
    rw [← accepts_iff hpos hbound hbits]
    cases hfirst : accepts bound bits <;> simp [taken?, hloop, hfirst]

/-- The numbers that are taken for one number below a bound that is a power of two are a block. -/
theorem taken?_eq_some_iff_of_power (hloop : hasSingleBit bound = true) (hpos : 0 < bound)
    (hbound : bound < 0x80000000) {value : Nat} :
    taken? bound bits = some value ↔
      value * (0x80000000 / bound) ≤ bits ∧ bits < (value + 1) * (0x80000000 / bound) := by
  have hsize : 0 < 0x80000000 / bound := Nat.div_pos (Nat.le_of_lt hbound) hpos
  have hplace := (mul_shiftRight_eq ((hasSingleBit_iff hpos hbound).1 hloop) hbound bits).2
  simp only [taken?, hloop, if_true, hplace, Option.some.injEq]
  rw [Nat.div_eq_iff hsize, Nat.succ_mul]
  omega

/-- The numbers that are taken for one number below another bound have the same place in their
blocks. -/
theorem taken?_eq_some_iff_of_loop (hloop : hasSingleBit bound = false) (hpos : 0 < bound)
    (hbound : bound < 0x80000000) {value : Nat} (hvalue : value < bound) :
    bits < 0x80000000 ∧ taken? bound bits = some value ↔
      ∃ block < 0x80000000 / bound, value + bound * block = bits := by
  constructor
  · rintro ⟨hbits, htaken⟩
    have haccepted := (isSome_taken?_iff hpos hbound hbits).1 (Option.isSome_of_eq_some htaken)
    obtain rfl : bits % bound = value := by
      simp only [taken?, hloop, Bool.false_eq_true, if_false] at htaken
      split at htaken
      · exact Option.some.inj htaken
      · cases htaken
    exact ⟨bits / bound, Nat.div_lt_of_lt_mul haccepted, Nat.mod_add_div bits bound⟩
  · rintro ⟨block, hblock, rfl⟩
    have hlt : value + bound * block < bound * (0x80000000 / bound) :=
      calc value + bound * block < bound * (block + 1) := by rw [Nat.mul_succ]; omega
        _ ≤ bound * (0x80000000 / bound) := Nat.mul_le_mul_left _ hblock
    have hbits : value + bound * block < 0x80000000 :=
      Nat.lt_of_lt_of_le hlt (Nat.mul_div_le _ _)
    have haccepted := (accepts_iff hpos hbound hbits).2 hlt
    refine ⟨hbits, ?_⟩
    simp only [taken?, hloop, haccepted, Bool.false_eq_true, if_false, if_true,
      Nat.add_mul_mod_self_left, Nat.mod_eq_of_lt hvalue]

/-- Every number below the bound is taken from equally many numbers of 31 bits. -/
theorem card_taken? (hpos : 0 < bound) (hbound : bound < 0x80000000) {value : Nat}
    (hvalue : value < bound) :
    ((Finset.range 0x80000000).filter fun bits ↦ taken? bound bits = some value).card =
      0x80000000 / bound := by
  cases hloop : hasSingleBit bound with
  | true =>
    have hblock : (Finset.range 0x80000000).filter (fun bits ↦ taken? bound bits = some value) =
        Finset.Ico (value * (0x80000000 / bound)) ((value + 1) * (0x80000000 / bound)) := by
      have hlast : (value + 1) * (0x80000000 / bound) ≤ 0x80000000 :=
        Nat.le_trans (Nat.mul_le_mul_right _ hvalue) (Nat.mul_div_le _ _)
      ext bits
      rw [Finset.mem_filter, Finset.mem_range, Finset.mem_Ico,
        taken?_eq_some_iff_of_power hloop hpos hbound]
      omega
    rw [hblock, Nat.card_Ico, Nat.succ_mul, Nat.add_sub_cancel_left]
  | false =>
    have hplaces : (Finset.range 0x80000000).filter (fun bits ↦ taken? bound bits = some value) =
        (Finset.range (0x80000000 / bound)).image fun block ↦ value + bound * block := by
      ext bits
      rw [Finset.mem_filter, Finset.mem_range, Finset.mem_image,
        taken?_eq_some_iff_of_loop hloop hpos hbound hvalue]
      simp only [Finset.mem_range]
    have hinjective : Injective fun block ↦ value + bound * block := by
      intro first second heq
      exact Nat.eq_of_mul_eq_mul_left hpos (Nat.add_left_cancel heq)
    rw [hplaces, Finset.card_image_of_injective _ hinjective, Finset.card_range]

/-- What a number of 31 bits is taken for is below the bound. -/
theorem lt_of_taken? (hpos : 0 < bound) (hbits : bits < 0x80000000) {value : Nat}
    (h : taken? bound bits = some value) : value < bound := by
  unfold taken? at h
  split at h
  · cases h
    exact mul_shiftRight_lt hpos hbits
  · split at h
    · cases h
      exact Nat.mod_lt bits hpos
    · cases h

/-- A draw below a bound takes the next number of 31 bits when it lies in a complete block, as
every number does when the bound is a power of two, and goes on behind it otherwise. Each number
below the bound has one number of every block that is taken for it, so all of them are equally
likely. -/
theorem drawBelow_uniform (hpos : 0 < bound) (hbound : bound < 0x80000000) :
    (∀ source : Lcg, source.drawBelow bound = (taken? bound (source.next.leading 31)).elim
      (source.next.drawBelow bound) fun value ↦ (value, source.next)) ∧
    (∀ bits < 0x80000000, (taken? bound bits).isSome ↔ bits < bound * (0x80000000 / bound)) ∧
    (bound.isPowerOfTwo → ∀ bits, (taken? bound bits).isSome) ∧
    (∀ bits < 0x80000000, ∀ value, taken? bound bits = some value → value < bound) ∧
    ∀ value < bound, ((Finset.range 0x80000000).filter fun bits ↦
      taken? bound bits = some value).card = 0x80000000 / bound := by
  refine ⟨drawBelow_eq hpos hbound, fun bits ↦ isSome_taken?_iff hpos hbound, ?_,
    fun bits hbits value ↦ lt_of_taken? hpos hbits, fun value ↦ card_taken? hpos hbound⟩
  intro hpower bits
  simp [taken?, (hasSingleBit_iff hpos hbound).2 hpower]

/-- Two of the numbers of 31 bits are outside the blocks of six. -/
theorem drawBelow_uniform_six :
    (∀ bits < 0x80000000, (taken? 6 bits).isSome ↔ bits < 6 * 357913941) ∧
      ∀ value < 6,
        ((Finset.range 0x80000000).filter fun bits ↦ taken? 6 bits = some value).card =
        357913941 :=
  have huniform := drawBelow_uniform (show 0 < 6 by decide) (show 6 < 0x80000000 by decide)
  ⟨huniform.2.1, huniform.2.2.2.2⟩

end Exemplar.Lcg
