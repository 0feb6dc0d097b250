import Exemplar.CharSet.Members
import Exemplar.CharSet.Predefined

/-!
# Simpler alphabets

A failing text is easier to read when its characters are simple. A set is narrowed in three levels:
to letters and digits, to lower-case letters and digits, and to one member. A level that would leave
nothing is skipped, so a set that has members keeps some.
-/

namespace Exemplar.CharSet

/-- The number of levels. -/
def levelCount : Nat := 3

/-- What a level makes of a set, before the empty outcome is ruled out. -/
def restrict (set : CharSet) : Nat → CharSet
  | 0 => set ∩ alphanumeric
  | 1 => set ∩ lowerAlphanumeric
  | _ => match set.nth? 0 with
    | some c => single c
    | none => empty

/-- Apply one level, unless nothing would be left. -/
def narrowStep (set : CharSet) (level : Nat) : CharSet :=
  if (set.restrict level).isEmpty then set else set.restrict level

/-- Apply every level from the first to the given one. -/
def narrow (set : CharSet) (level : Nat) : CharSet :=
  (List.range (min level (levelCount - 1) + 1)).foldl narrowStep set

end Exemplar.CharSet
