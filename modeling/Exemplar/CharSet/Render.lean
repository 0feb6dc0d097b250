import Exemplar.CharSet.Members

/-!
# Character sets as text

A set is written as a bracket expression: its maximal runs, or those of its complement after a caret
when most characters are members. The text reads back as the same set.
-/

namespace Exemplar

/-- The number in hexadecimal digits, with leading zeros up to a width. -/
def hexDigits (width code : Nat) : List Char :=
  (Nat.toDigits 16 code).leftpad width '0'

namespace CharSet

/-- The text of a character inside a bracket expression. -/
def renderMember (c : Char) : List Char :=
  if c ∈ ['\\', '[', ']', '^', '-', '&'] then ['\\', c]
  else if c = '\n' then ['\\', 'n']
  else if c = '\r' then ['\\', 'r']
  else if c = '\t' then ['\\', 't']
  else if ' ' ≤ c ∧ c ≤ '~' then [c]
  else if c.toNat ≤ 0xFF then '\\' :: 'x' :: hexDigits 2 c.toNat
  else '\\' :: 'u' :: hexDigits 4 c.toNat

/-- The text of a run: its ends, with a hyphen when there are more members between them. -/
def renderRange (first last : Char) : List Char :=
  if first = last then renderMember first
  else if last.toNat > first.toNat + 1 then renderMember first ++ '-' :: renderMember last
  else renderMember first ++ renderMember last

/-- The text of the runs of a set. -/
def renderRanges (set : CharSet) : List Char :=
  set.ranges.flatMap fun (first, last) ↦ renderRange first last

/-- The bracket expression of a set. -/
def render (set : CharSet) : List Char :=
  if set.weight = fullSize then "[\\x00-\\uffff]".toList
  else if set.weight = 0 then "[^\\x00-\\uffff]".toList
  else if set.weight * 2 > fullSize then '[' :: '^' :: set.negate.renderRanges ++ [']']
  else '[' :: set.renderRanges ++ [']']

instance : ToString CharSet := ⟨fun set ↦ String.ofList set.render⟩

/-- A description of a set: its bracket expression and the number of its members. -/
def describe (set : CharSet) : String :=
  s!"CharSet({set}, weight = {set.weight})"

end CharSet

end Exemplar
