/-!
# Random sources

A random source is a value. A draw returns what was drawn together with the next source, so a run
can be repeated from the source with which it began.
-/

namespace Exemplar

/-- A supply of random numbers. `drawWord` draws a number from `-2 ^ 63` up to `2 ^ 63 - 1`, and
`drawBetween` one from the first number up to, but without, the second. An empty range gives the
first number and leaves the source as it is. -/
class RandomSource (σ : Type) where
  drawWord : σ → Int × σ
  drawBetween : Nat → Nat → σ → Nat × σ

namespace RandomSource

/-- The signed number of 64 bits that agrees with a number modulo `2 ^ 64`. -/
def wrapWord (value : Int) : Int :=
  Int.bmod value 0x10000000000000000

variable {σ : Type}

/-- The number of a range that a number of 64 bits is taken for: the remainder of its size. -/
def reduce (low high : Nat) (value : Int) : Nat :=
  low + value.natAbs % (high - low)

/-- Draw from a range by way of a number of 64 bits. -/
def drawByRemainder (drawWord : σ → Int × σ) (low high : Nat) (source : σ) : Nat × σ :=
  if high ≤ low then (low, source)
  else
    let (value, next) := drawWord source
    (reduce low high value, next)

/-- A reduced number lies in the range. -/
theorem reduce_mem {low high : Nat} (h : low < high) (value : Int) :
    low ≤ reduce low high value ∧ reduce low high value < high := by
  have := Nat.mod_lt value.natAbs (show high - low > 0 by omega)
  unfold reduce
  omega

end RandomSource

end Exemplar
