import Exemplar.CharSet.Basic
import Exemplar.Generation.Error

/-!
# The members of a character set

The members of a set are numbered in the order of their code points. `nth?` finds the member with a
given number, `toList` lists them all, and `sample` takes any integer for a choice of a member.
-/

namespace Exemplar.CharSet

/-- The code point with a given number in a list of runs. -/
def nthCode? : List (Nat × Nat) → Nat → Option Nat
  | [], _ => none
  | (first, stop) :: rest, index =>
      if index < stop - first then some (first + index) else nthCode? rest (index - (stop - first))

/-- The member with a given number, counted from zero. -/
def nth? (set : CharSet) (index : Nat) : Option Char :=
  (nthCode? set.runs index).map Char.ofNat

/-- The member whose number is the size of `seed` modulo the number of members. -/
def sample (set : CharSet) (seed : Int) : Except GenerationError Char :=
  match set.nth? (seed.natAbs % set.weight) with
  | some c => .ok c
  | none => .error .emptyCharSet

/-- The members in the order of their code points. -/
def toList (set : CharSet) : List Char :=
  set.runs.flatMap fun (first, stop) ↦ (List.range' first (stop - first)).map Char.ofNat

/-- The maximal runs of neighbouring members, each with its first and its last member. -/
def ranges (set : CharSet) : List (Char × Char) :=
  set.runs.map fun (first, stop) ↦ (Char.ofNat first, Char.ofNat (stop - 1))

end Exemplar.CharSet
