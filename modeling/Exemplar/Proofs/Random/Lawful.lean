import Exemplar.Random.Lcg
import Mathlib.Algebra.Group.Nat.Defs

/-!
# Sources that keep to the range

A random source is lawful when a bounded draw stays between its bounds, and gives the lower bound
when there is nothing between them. Nothing is asked of the values themselves: statements about all
lawful sources hold for every sequence of draws. The linear congruential source is lawful.
-/

namespace Exemplar

/-- A source whose bounded draws keep to their bounds: a draw from a range that is not empty lies
in the range, and a draw from an empty range is its lower bound. -/
class RandomSource.Lawful (σ : Type) [RandomSource σ] : Prop where
  drawBetween_mem {low high : Nat} (h : low < high) (source : σ) :
    low ≤ (drawBetween low high source).1 ∧ (drawBetween low high source).1 < high
  drawBetween_of_le {low high : Nat} (h : high ≤ low) (source : σ) :
    (drawBetween low high source).1 = low

namespace RandomSource

/-- A bounded draw is at least the lower bound, also when the range is empty. -/
theorem le_drawBetween {σ : Type} [RandomSource σ] [Lawful σ] (low high : Nat) (source : σ) :
    low ≤ (drawBetween low high source).1 := by
  rcases Nat.lt_or_ge low high with h | h
  · exact (Lawful.drawBetween_mem h source).1
  · exact Nat.le_of_eq (Lawful.drawBetween_of_le h source).symm

end RandomSource

namespace Lcg

/-- The leading bits of a state are as many as they should be. -/
theorem leading_lt (source : Lcg) {bits : Nat} (h : bits ≤ 48) :
    source.leading bits < 2 ^ bits := by
  have hstate : source.state < 2 ^ (48 - bits) * 2 ^ bits := by
    rw [← Nat.pow_add, Nat.sub_add_cancel h]
    exact source.state_lt
  rw [leading, Nat.shiftRight_eq_div_pow]
  exact Nat.div_lt_of_lt_mul hstate

/-- An accepted number is below the bound. -/
theorem lt_of_drawAccepted? {bound fuel value : Nat} (hbound : 0 < bound) {source next : Lcg}
    (h : drawAccepted? bound fuel source = some (value, next)) : value < bound := by
  induction fuel generalizing source with
  | zero => cases h
  | succ fuel ih =>
    simp only [drawAccepted?] at h
    split at h
    · cases h
      exact Nat.mod_lt _ hbound
    · exact ih h

/-- The leading bits that a power of two takes are below it. -/
theorem mul_shiftRight_lt {bound bits : Nat} (hbound : 0 < bound) (hbits : bits < 0x80000000) :
    (bound * bits) >>> 31 < bound := by
  rw [Nat.shiftRight_eq_div_pow]
  refine Nat.div_lt_of_lt_mul ?_
  rw [Nat.mul_comm]
  exact Nat.mul_lt_mul_of_pos_right hbits hbound

/-- A draw below a positive bound is below it. -/
theorem drawBelow_lt {bound : Nat} (hbound : 0 < bound) (source : Lcg) :
    (source.drawBelow bound).1 < bound := by
  unfold drawBelow
  split
  · exact mul_shiftRight_lt hbound (source.next.leading_lt (by decide))
  · cases hdraw : drawAccepted? bound 0x1000000000000 source with
    | none => exact hbound
    | some outcome => exact lt_of_drawAccepted? hbound hdraw

instance : RandomSource.Lawful Lcg where
  drawBetween_mem := by
    intro low high h source
    show low ≤ (drawBetween low high source).1 ∧ (drawBetween low high source).1 < high
    unfold drawBetween
    rw [if_neg (Nat.not_le.2 h)]
    split
    · have hlt := drawBelow_lt (Nat.sub_pos_of_lt h) source
      simp only
      omega
    · rw [RandomSource.drawByRemainder, if_neg (Nat.not_le.2 h)]
      exact RandomSource.reduce_mem h _
  drawBetween_of_le := by
    intro low high h source
    show (drawBetween low high source).1 = low
    rw [drawBetween, if_pos h]

end Lcg

end Exemplar
