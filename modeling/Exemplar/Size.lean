/-!
# Sizes

Lengths and repetition counts are natural numbers below `2 ^ 64`. The length of a whole tree can
leave that range, and each computation says what happens then: an operation named `capped` stops
at the largest size, an operation named `wrapped` keeps the remainder modulo `2 ^ 64`, and a checked
operation, whose name ends in a question mark, has no result.
-/

namespace Exemplar.Size

/-- The number of sizes. -/
def modulus : Nat := 0x10000000000000000

/-- The largest size. -/
def largest : Nat := modulus - 1

/-- The product, or the largest size when the product is no size. -/
def mulCapped (left right : Nat) : Nat :=
  min (left * right) largest

/-- The sum modulo the number of sizes. -/
def addWrapped (left right : Nat) : Nat :=
  (left + right) % modulus

/-- The difference modulo the number of sizes. -/
def subWrapped (left right : Nat) : Nat :=
  (left + (modulus - right)) % modulus

/-- The product modulo the number of sizes. -/
def mulWrapped (left right : Nat) : Nat :=
  (left * right) % modulus

/-- The sum of several numbers. -/
def total (numbers : List Nat) : Nat :=
  numbers.foldr (· + ·) 0

/-- The sum, if it is a size. -/
def add? (left right : Nat) : Option Nat :=
  if left + right < modulus then some (left + right) else none

/-- The difference, if it is not negative. -/
def sub? (left right : Nat) : Option Nat :=
  if right ≤ left then some (left - right) else none

/-- The product, if it is a size. -/
def mul? (left right : Nat) : Option Nat :=
  if left * right < modulus then some (left * right) else none

/-- The quotient, if the divisor is not zero. -/
def div? (left right : Nat) : Option Nat :=
  if right = 0 then none else some (left / right)

/-- The number itself, if it is a size. -/
def narrow? (number : Nat) : Option Nat :=
  if number < modulus then some number else none

/-- The sum of several numbers, if it is a size wherever the addition stands. -/
def total? (numbers : List Nat) : Option Nat :=
  numbers.foldlM add? 0

/-- The largest number whose square does not exceed `n`, one binary digit per step. -/
def squareRoot (n : Nat) : Nat :=
  if n = 0 then 0
  else
    let root := 2 * squareRoot (n / 4)
    if (root + 1) * (root + 1) ≤ n then root + 1 else root
termination_by n
decreasing_by omega

/-- Zero is a size. -/
theorem zero_lt_modulus : 0 < modulus := by decide

/-- One is a size. -/
theorem one_lt_modulus : 1 < modulus := by decide

/-- A number that is cut off at the largest size is a size. -/
theorem min_largest_lt (number : Nat) : min number largest < modulus :=
  Nat.lt_of_le_of_lt (Nat.min_le_right ..) (by decide)

/-- A product that is a size is exact. -/
theorem mulCapped_eq {left right : Nat} (h : left * right < modulus) :
    mulCapped left right = left * right := by
  have : largest = modulus - 1 := rfl
  unfold mulCapped
  omega

/-- A capped product is a size. -/
theorem mulCapped_le_largest (left right : Nat) : mulCapped left right ≤ largest :=
  Nat.min_le_right _ _

/-- A sum that is a size does not wrap. -/
theorem addWrapped_eq {left right : Nat} (h : left + right < modulus) :
    addWrapped left right = left + right :=
  Nat.mod_eq_of_lt h

/-- A difference of sizes that stays above zero does not wrap. -/
theorem subWrapped_eq {left right : Nat} (hle : right ≤ left) (hleft : left < modulus) :
    subWrapped left right = left - right := by
  unfold subWrapped
  have : left + (modulus - right) = (left - right) + modulus := by omega
  rw [this, Nat.add_mod_right, Nat.mod_eq_of_lt (by omega)]

/-- A product that is a size does not wrap. -/
theorem mulWrapped_eq {left right : Nat} (h : left * right < modulus) :
    mulWrapped left right = left * right :=
  Nat.mod_eq_of_lt h

/-- The square root brackets its argument between two neighbouring squares. -/
theorem squareRoot_bounds (n : Nat) :
    squareRoot n * squareRoot n ≤ n ∧ n < (squareRoot n + 1) * (squareRoot n + 1) := by
  induction n using Nat.strongRecOn with
  | ind n ih =>
    unfold squareRoot
    split
    · omega
    · have h := ih (n / 4) (by omega)
      generalize squareRoot (n / 4) = root at h
      have hlow : 2 * root * (2 * root) = root * root * 4 := by
        rw [Nat.mul_mul_mul_comm]; omega
      have hhigh : (2 * root + 1 + 1) * (2 * root + 1 + 1) = (root + 1) * (root + 1) * 4 := by
        rw [show 2 * root + 1 + 1 = 2 * (root + 1) by omega, Nat.mul_mul_mul_comm]; omega
      simp only
      split <;> omega

end Exemplar.Size
