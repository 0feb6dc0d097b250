import Exemplar.Random.Source
import Exemplar.Size

/-!
# Counting sources

Two sources whose numbers are known in advance. `Stepper` returns a number that grows by a fixed
step, and scales it into a range by multiplication. `Counter` counts upwards and reduces into a
range by remainder.
-/

namespace Exemplar

/-- A source whose numbers grow by a fixed step modulo `2 ^ 64`. `current` is the next number. -/
structure Stepper where
  current : UInt64
  step : UInt64
  deriving DecidableEq, Repr, Inhabited

namespace Stepper

/-- The source after one draw. -/
def next (source : Stepper) : Stepper :=
  { source with current := source.current + source.step }

/-- Draw the current number, read as a signed number. -/
def drawWord (source : Stepper) : Int × Stepper :=
  (source.current.toInt64.toInt, source.next)

/-- The largest low half of a product that is accepted for a range of `width` numbers: `width` moved
to the top of 64 bits, less one. -/
def zone (width : Nat) : Nat :=
  (width <<< (63 - width.log2)) - 1

/-- Scale numbers into a range of `width` numbers until the low half of a product is in the zone. At
most `fuel` numbers are drawn. -/
def scale? (width : Nat) : (fuel : Nat) → Stepper → Option (Nat × Stepper)
  | 0, _ => none
  | fuel + 1, source =>
      let product := source.current.toNat * width
      if product % Size.modulus ≤ zone width then some (product / Size.modulus, source.next)
      else scale? width fuel source.next

/-- Draw a number from `low` up to, but without, `high`. The numbers repeat after `2 ^ 64` draws. -/
def drawBetween (low high : Nat) (source : Stepper) : Nat × Stepper :=
  if high ≤ low then (low, source)
  else
    let (value, next) := (scale? (high - low) Size.modulus source).getD (0, source)
    (low + value, next)

instance : RandomSource Stepper := ⟨drawWord, drawBetween⟩

end Stepper

/-- A source that counts upwards through the numbers of 64 bits. `current` is the next number. -/
structure Counter where
  current : Int
  deriving DecidableEq, Repr, Inhabited

namespace Counter

/-- Draw the current number. -/
def drawWord (source : Counter) : Int × Counter :=
  (source.current, ⟨RandomSource.wrapWord (source.current + 1)⟩)

instance : RandomSource Counter := ⟨drawWord, RandomSource.drawByRemainder drawWord⟩

end Counter

end Exemplar
