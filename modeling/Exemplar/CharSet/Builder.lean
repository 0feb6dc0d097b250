import Exemplar.CharSet.Folding

/-!
# Building a character set

A bracket expression lists its members one by one. Listed characters and ranges stand for their
other cases, sets that are merged do not, and a complement is taken at the very end.
-/

namespace Exemplar.CharSet

/-- A character set under construction: its members so far, the case maps for listed characters,
and whether the complement is taken at the end. -/
structure Builder where
  members : CharSet
  folding : CaseFolding
  negated : Bool

namespace Builder

/-- A builder without members. -/
def start (folding : CaseFolding) : Builder :=
  ⟨empty, folding, false⟩

/-- Add a range of characters and their other cases. -/
def addRange (builder : Builder) (first last : Char) : Builder :=
  { builder with members := builder.members ∪ (range first last).foldCase builder.folding }

/-- Add a character and its other cases. -/
def addChar (builder : Builder) (c : Char) : Builder :=
  builder.addRange c c

/-- Add the members of a set as they are. -/
def addSet (builder : Builder) (set : CharSet) : Builder :=
  { builder with members := builder.members ∪ set }

/-- Keep the members that are in a set. -/
def keep (builder : Builder) (set : CharSet) : Builder :=
  { builder with members := builder.members ∩ set }

/-- Take the complement at the end, or no longer take it. -/
def negate (builder : Builder) : Builder :=
  { builder with negated := !builder.negated }

/-- The set that was built. -/
def build (builder : Builder) : CharSet :=
  if builder.negated then builder.members.negate else builder.members

end Builder

end Exemplar.CharSet
