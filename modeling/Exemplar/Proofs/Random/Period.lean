import Exemplar.Proofs.Random.Lawful
import Mathlib.Algebra.Ring.GeomSum
import Mathlib.Data.Fintype.EquivFin
import Mathlib.Data.Nat.ModEq
import Mathlib.Data.Nat.Prime.Basic
import Mathlib.Tactic.Ring

/-!
# The period of the linear congruential source

The multiplier leaves the remainder one modulo four and the increment is odd. So a state comes back
only behind a number of draws that all `2 ^ 48` states divide
(`Lcg.two_pow_dvd_of_iterate_eq_self`), fewer draws lead to different states
(`Lcg.iterate_injective`), and every state is reached from every other one
(`Lcg.exists_iterate_eq`).
-/

namespace Exemplar

open Function

/-! ## Sums of powers -/

/-- A sum of the first powers of an odd number is even only when their number is even. -/
theorem even_of_even_sum_pow {base count : Nat} (hbase : base % 4 = 1)
    (h : 2 ∣ ∑ i ∈ Finset.range count, base ^ i) : 2 ∣ count := by
  have hparity : (∑ i ∈ Finset.range count, base ^ i) ≡ count [MOD 2] := by
    clear h
    induction count with
    | zero => rfl
    | succ count ih =>
      have hpow : base ^ count ≡ 1 [MOD 2] := by
        have hone : base ≡ 1 [MOD 2] := by
          show base % 2 = 1 % 2
          omega
        simpa using hone.pow count
      rw [Finset.sum_range_succ]
      exact ih.add hpow
  have heven := (Nat.modEq_zero_iff_dvd.2 h).symm.trans hparity
  exact Nat.modEq_zero_iff_dvd.1 heven.symm

/-- A sum of an even number of powers is half as many of them times a number that is even only
once. -/
theorem exists_sum_pow_add_self {base : Nat} (hbase : base % 4 = 1) (half : Nat) :
    ∃ odd, odd % 2 = 1 ∧ ∑ i ∈ Finset.range (half + half), base ^ i =
      2 * ((∑ i ∈ Finset.range half, base ^ i) * odd) := by
  have hpow : base ^ half % 4 = 1 := by
    have hone : base ^ half ≡ 1 ^ half [MOD 4] := Nat.ModEq.pow half hbase
    rw [one_pow] at hone
    exact hone
  refine ⟨(1 + base ^ half) / 2, by omega, ?_⟩
  have htwice : 1 + base ^ half = 2 * ((1 + base ^ half) / 2) := by omega
  calc ∑ i ∈ Finset.range (half + half), base ^ i
      = (∑ i ∈ Finset.range half, base ^ i) * (1 + base ^ half) := by
        rw [Finset.sum_range_add, Nat.mul_add, Nat.mul_one, Finset.sum_mul]
        refine congrArg _ (Finset.sum_congr rfl fun i _ ↦ ?_)
        rw [pow_add, Nat.mul_comm]
    _ = 2 * ((∑ i ∈ Finset.range half, base ^ i) * ((1 + base ^ half) / 2)) := by
        rw [Nat.mul_left_comm, ← htwice]

/-- A power of two that divides a sum of the first powers divides their number. -/
theorem two_pow_dvd_of_dvd_sum_pow {base : Nat} (hbase : base % 4 = 1) {exponent count : Nat}
    (h : 2 ^ exponent ∣ ∑ i ∈ Finset.range count, base ^ i) : 2 ^ exponent ∣ count := by
  induction exponent generalizing count with
  | zero => exact one_dvd count
  | succ exponent ih =>
    obtain ⟨half, hhalf⟩ := even_of_even_sum_pow hbase (dvd_trans (dvd_pow_self 2 (by simp)) h)
    obtain rfl : count = half + half := by omega
    obtain ⟨odd, hodd, hsum⟩ := exists_sum_pow_add_self hbase half
    rw [hsum, pow_succ', Nat.mul_dvd_mul_iff_left (by decide)] at h
    have hcoprime : Nat.Coprime (2 ^ exponent) odd :=
      (Nat.coprime_two_left.2 (Nat.odd_iff.2 hodd)).pow_left exponent
    have hdvd := ih (hcoprime.dvd_of_dvd_mul_right h)
    rw [pow_succ', ← Nat.two_mul]
    exact Nat.mul_dvd_mul_left 2 hdvd

/-! ## Iterated states -/

namespace Lcg

/-- The state behind a number of draws is an affine function of the state before them. -/
theorem state_iterate (source : Lcg) (count : Nat) :
    (next^[count] source).state =
      (source.state * multiplier ^ count + increment * ∑ i ∈ Finset.range count,
        multiplier ^ i) % 2 ^ 48 := by
  induction count with
  | zero => simpa using (Nat.mod_eq_of_lt source.state_lt).symm
  | succ count ih =>
    rw [iterate_succ_apply', geom_sum_succ]
    show ((next^[count] source).state * multiplier + increment) % 2 ^ 48 = _
    rw [ih, Nat.add_mod, Nat.mod_mul_mod, ← Nat.add_mod]
    congr 1
    ring

/-- A state comes back only behind a number of draws that is a multiple of the number of states. -/
theorem two_pow_dvd_of_iterate_eq_self {source : Lcg} {count : Nat}
    (h : next^[count] source = source) : 2 ^ 48 ∣ count := by
  have hstate := state_iterate source count
  rw [h] at hstate
  set sum := ∑ i ∈ Finset.range count, multiplier ^ i with hsum
  -- A power of the multiplier exceeds one by a multiple of the sum, and so does the state its old
  -- value.
  have hpow : multiplier ^ count = sum * (multiplier - 1) + 1 :=
    (geom_sum_mul_add (multiplier - 1) count).symm
  have hreturn : sum * (source.state * (multiplier - 1) + increment) + source.state ≡
      0 + source.state [MOD 2 ^ 48] := by
    have hsize : source.state % 2 ^ 48 = source.state := Nat.mod_eq_of_lt source.state_lt
    have hsplit : sum * (source.state * (multiplier - 1) + increment) + source.state =
        source.state * multiplier ^ count + increment * sum := by
      rw [hpow]
      ring
    rw [Nat.zero_add, Nat.ModEq, hsplit, hsize]
    exact hstate.symm
  have hdvd := Nat.modEq_zero_iff_dvd.1 (Nat.ModEq.add_right_cancel' _ hreturn)
  -- The other factor is odd, because one less than the multiplier is even and the increment is odd.
  have hodd : (source.state * (multiplier - 1) + increment) % 2 = 1 := by
    have heven : (multiplier - 1) % 2 = 0 := by decide
    have hincrement : increment % 2 = 1 := by decide
    rw [Nat.add_mod, Nat.mul_mod, heven, hincrement, Nat.mul_zero]
  have hcoprime : Nat.Coprime (2 ^ 48) (source.state * (multiplier - 1) + increment) :=
    (Nat.coprime_two_left.2 (Nat.odd_iff.2 hodd)).pow_left 48
  exact two_pow_dvd_of_dvd_sum_pow (by decide) (hcoprime.dvd_of_dvd_mul_right hdvd)

/-- Different numbers of draws, smaller than the number of states, lead to different states. -/
theorem iterate_injective (source : Lcg) {first second : Nat} (hsecond : second < 2 ^ 48)
    (hle : first ≤ second) (h : next^[first] source = next^[second] source) : first = second := by
  have hback : next^[second - first] (next^[first] source) = next^[first] source := by
    rw [← iterate_add_apply, Nat.sub_add_cancel hle, h]
  have hdvd := two_pow_dvd_of_iterate_eq_self hback
  have := Nat.eq_zero_of_dvd_of_lt hdvd (by omega)
  omega

/-- Every state is reached from every other one. -/
theorem exists_iterate_eq (source other : Lcg) :
    ∃ count < 2 ^ 48, next^[count] source = other := by
  let visit : Fin (2 ^ 48) → Fin (2 ^ 48) := fun count ↦
    ⟨(next^[count] source).state, (next^[count] source).state_lt⟩
  have hinjective : Injective visit := by
    intro first second heq
    have hstate : (next^[first] source).state = (next^[second] source).state := Fin.val_eq_of_eq heq
    have hsame : next^[first] source = next^[second] source := by
      cases hfirst : next^[first] source
      cases hsecond : next^[second] source
      simpa [hfirst, hsecond] using hstate
    rcases Nat.le_total first second with hle | hle
    · exact Fin.ext (iterate_injective source second.isLt hle hsame)
    · exact Fin.ext (iterate_injective source first.isLt hle hsame.symm).symm
  obtain ⟨count, hcount⟩ :=
    Finite.surjective_of_injective hinjective ⟨other.state, other.state_lt⟩
  refine ⟨count, count.isLt, ?_⟩
  have hstate : (next^[count] source).state = other.state := Fin.val_eq_of_eq hcount
  cases hfirst : next^[count] source
  cases other
  simpa [hfirst] using hstate

end Lcg

end Exemplar
