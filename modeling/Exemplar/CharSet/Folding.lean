import Exemplar.CharSet.Basic
import Exemplar.Unicode.CaseMap

/-!
# Case folding

When case does not count, a character stands for its other forms too. `CaseFolding` says which case
maps are used, and `CharSet.foldCase` adds the forms of all members.
-/

namespace Exemplar

/-- The case maps that are used when case does not count. With `none`, case counts after all. With
`ascii`, the letters of ASCII have two cases, and with `unicode`, every character whose other case
is a single character has it. -/
inductive CaseFolding where
  | none
  | ascii
  | unicode
  deriving DecidableEq, Repr, Inhabited

namespace CaseFolding

/-- The letters of ASCII, each with its other case. -/
def asciiPairs : List (Nat × Nat) :=
  [(⟨⟨0x41, 0x5A, 1⟩, 32⟩ : Unicode.Shift),
    ⟨⟨0x61, 0x7A, 1⟩, -32⟩].flatMap (·.pairs)

/-- All characters that have another case, each with its other case. -/
def unicodePairs : List (Nat × Nat) :=
  (Unicode.toLower ++ Unicode.toUpper).flatMap (·.pairs)

/-- The characters that have another case, each with its other case. -/
def pairs : CaseFolding → List (Nat × Nat)
  | none => []
  | ascii => asciiPairs
  | unicode => unicodePairs

end CaseFolding

/-- The members of the set and their other cases. -/
def CharSet.foldCase (set : CharSet) (folding : CaseFolding) : CharSet :=
  set ∪ ofCodes ((folding.pairs.filter fun pair ↦ set.containsCode pair.1).map (·.2))

end Exemplar
