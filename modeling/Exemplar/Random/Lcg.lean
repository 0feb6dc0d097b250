import Exemplar.Random.Source

/-!
# The linear congruential source

`Lcg` is the 48-bit linear congruential generator with multiplier `0x5DEECE66D` and increment 11. A
draw uses the leading bits of the state, because the trailing ones have short periods. A bounded
draw rejects the leading bits that would favour some of the numbers.
-/

namespace Exemplar

/-- A linear congruential generator with a current number of 48 bits. -/
structure Lcg where
  state : Nat
  state_lt : state < 0x1000000000000
  deriving DecidableEq, Repr

namespace Lcg

/-- The factor from one state to the next. -/
def multiplier : Nat := 0x5DEECE66D

/-- The summand from one state to the next. -/
def increment : Nat := 11

/-- A generator in the state of the trailing 48 bits of a number. -/
def ofNat (number : Nat) : Lcg :=
  ⟨number % 0x1000000000000, Nat.mod_lt _ (by decide)⟩

/-- The generator of a seed, whose bits are scrambled first. -/
def ofSeed (seed : Int) : Lcg :=
  ofNat ((seed % 0x1000000000000).toNat ^^^ multiplier)

instance : Inhabited Lcg := ⟨ofSeed 0⟩

/-- The generator in its next state. -/
def next (source : Lcg) : Lcg :=
  ofNat (source.state * multiplier + increment)

/-- The leading bits of the state. -/
def leading (source : Lcg) (bits : Nat) : Nat :=
  source.state >>> (48 - bits)

/-- Draw 64 bits as a signed number: 32 bits for the high half and 32 signed bits that are added to
it. -/
def drawWord (source : Lcg) : Int × Lcg :=
  let first := source.next
  let second := first.next
  -- The low half is signed, so it may take one from the high half.
  let low := Int.bmod (second.leading 32) 0x100000000
  (RandomSource.wrapWord (first.leading 32 * 0x100000000 + low), second)

/-- Whether a number of 31 bits belongs to a complete block of `bound` numbers. The last number of
the block has no more than 31 bits then, so it is not negative as a signed number of 32 bits. -/
def accepts (bound bits : Nat) : Bool :=
  0 ≤ Int.bmod (bits - bits % bound + (bound - 1) : Nat) 0x100000000

/-- Draw numbers of 31 bits until one of them belongs to a complete block, and return its place in
the block. At most `fuel` numbers are drawn. -/
def drawAccepted? (bound : Nat) : (fuel : Nat) → Lcg → Option (Nat × Lcg)
  | 0, _ => none
  | fuel + 1, source =>
      let bits := source.next.leading 31
      if accepts bound bits then some (bits % bound, source.next)
      else drawAccepted? bound fuel source.next

/-- Whether a positive number of 31 bits has a single set bit. The lowest set bit is what a number
has in common with its negative, modulo `2 ^ 32`. -/
def hasSingleBit (bound : Nat) : Bool :=
  bound &&& (0x100000000 - bound) == bound

/-- Draw a number below a positive `bound` of 31 bits. A power of two takes the leading bits it
needs. Any other bound draws until a number is accepted, which happens before the states repeat. -/
def drawBelow (bound : Nat) (source : Lcg) : Nat × Lcg :=
  if hasSingleBit bound then ((bound * source.next.leading 31) >>> 31, source.next)
  else (drawAccepted? bound 0x1000000000000 source).getD (0, source)

/-- Draw a number from `low` up to, but without, `high`. -/
def drawBetween (low high : Nat) (source : Lcg) : Nat × Lcg :=
  if high ≤ low then (low, source)
  else if high - low < 0x80000000 then
    let (value, next) := source.drawBelow (high - low)
    (low + value, next)
  else RandomSource.drawByRemainder drawWord low high source

instance : RandomSource Lcg := ⟨drawWord, drawBetween⟩

end Lcg

end Exemplar
