import Exemplar.Proofs.Random.Lawful
import Mathlib.Order.Lattice

/-!
# Scripts

A `Script` is a source whose draws were written down in advance. It draws them one after the other,
and where a number of the script lies out of the range that is asked for, the nearest number of the
range is drawn instead. So a script keeps to the ranges whatever is written in it, and it draws
every number that lies in the range as it is written (`drawWord_cons`, `drawBetween_cons`).
-/

namespace Exemplar

/-- A number of 64 bits lies between the ends of their range. -/
theorem RandomSource.wrapWord_mem (value : Int) :
    -0x8000000000000000 ≤ wrapWord value ∧ wrapWord value < 0x8000000000000000 := by
  have hlow := Int.le_bmod (x := value) (m := 0x10000000000000000) (by decide)
  have hhigh := Int.bmod_lt (x := value) (m := 0x10000000000000000) (by decide)
  rw [wrapWord]
  omega

/-- A source whose draws keep to the ranges that are asked for, words to the numbers from `-2 ^ 63`
up to `2 ^ 63 - 1`, and which a draw from an empty range leaves as it is. -/
class RandomSource.KeepsToRanges (σ : Type) [RandomSource σ] : Prop extends Lawful σ where
  drawWord_mem (source : σ) :
    -0x8000000000000000 ≤ (drawWord source).1 ∧ (drawWord source).1 < 0x8000000000000000
  source_drawBetween_of_le {low high : Nat} (h : high ≤ low) (source : σ) :
    (drawBetween low high source).2 = source

/-- A source that draws given numbers, and zero or the lower bound when they are used up. -/
structure Script where
  draws : List Nat
  deriving DecidableEq, Repr, Inhabited

namespace Script

/-- Draw the next number, as a number of 64 bits. -/
def drawWord (script : Script) : Int × Script :=
  (RandomSource.wrapWord (script.draws.headD 0), ⟨script.draws.tail⟩)

/-- Draw the next number, or the number of the range that is nearest to it. -/
def drawBetween (low high : Nat) (script : Script) : Nat × Script :=
  if high ≤ low then (low, script)
  else (max low (min (script.draws.headD 0) (high - 1)), ⟨script.draws.tail⟩)

instance : RandomSource Script := ⟨drawWord, drawBetween⟩

instance : RandomSource.KeepsToRanges Script where
  drawBetween_mem := by
    intro low high h script
    show low ≤ (drawBetween low high script).1 ∧ (drawBetween low high script).1 < high
    rw [drawBetween, if_neg (Nat.not_le.2 h)]
    simp only
    omega
  drawBetween_of_le := by
    intro low high h script
    show (drawBetween low high script).1 = low
    rw [drawBetween, if_pos h]
  drawWord_mem := by
    intro script
    show -0x8000000000000000 ≤ script.drawWord.1 ∧ script.drawWord.1 < 0x8000000000000000
    simpa only [drawWord] using RandomSource.wrapWord_mem _
  source_drawBetween_of_le := by
    intro low high h script
    show (drawBetween low high script).2 = script
    rw [drawBetween, if_pos h]

/-- A number of 63 bits is drawn as it is written. -/
theorem drawWord_cons {draw : Nat} (h : draw < 0x8000000000000000) (draws : List Nat) :
    RandomSource.drawWord (⟨draw :: draws⟩ : Script) = ((draw : Int), ⟨draws⟩) := by
  show (Int.bmod draw 0x10000000000000000, (⟨draws⟩ : Script)) = _
  rw [Int.bmod_eq_of_le (by omega) (by omega)]

/-- A number of the range is drawn as it is written. -/
theorem drawBetween_cons {low high draw : Nat} (hlow : low ≤ draw) (hhigh : draw < high)
    (draws : List Nat) :
    RandomSource.drawBetween low high (⟨draw :: draws⟩ : Script) = (draw, ⟨draws⟩) := by
  show drawBetween low high ⟨draw :: draws⟩ = _
  rw [drawBetween, if_neg (by omega)]
  show (max low (min draw (high - 1)), (⟨draws⟩ : Script)) = _
  rw [Nat.min_eq_left (by omega), Nat.max_eq_right hlow]

end Script

end Exemplar
