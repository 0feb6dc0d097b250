import Exemplar.Grammar.Groups

/-!
# Certain captures

A backreference needs the text of its group. `certain tree captured` follows a tree from left to
right and computes the groups that have captured behind it, whatever choices are drawn, when the
groups in `captured` have captured before it. It refuses a backreference to any other group. An
option that is not drawn and a repetition that may have no copies capture nothing for certain.
-/

namespace Exemplar

namespace Regex

mutual
/-- The number of backreferences in a tree. -/
def referenceCount : Regex → Nat
  | backref .. => 1
  | sequence parts => referenceCounts parts
  | choice options => referenceCounts options
  | repetition body .. => referenceCount body
  | group _ body => referenceCount body
  | _ => 0

/-- The number of backreferences in several trees. -/
def referenceCounts : List Regex → Nat
  | [] => 0
  | tree :: trees => referenceCount tree + referenceCounts trees
end

end Regex

/-- A step through the backreferences of a tree, which are at the given positions of the pattern. -/
abbrev ReferenceCheck := StateT (List Nat) (Except Located)

namespace ReferenceCheck

/-- The position of the next backreference. -/
def position : ReferenceCheck Nat := do
  match ← get with
  | [] => return 0
  | position :: positions =>
      set positions
      return position

/-- Pass over backreferences that are never written out. -/
def pass (count : Nat) : ReferenceCheck Unit :=
  modify (·.drop count)

mutual
/-- The groups that have certainly captured behind a tree. -/
def certain (groups : Groups) : Regex → (captured : List Nat) → ReferenceCheck (List Nat)
  | .backref id _, captured => do
      let position ← position
      if (groups.number? id).any (captured.contains ·) then return captured
      else throw ⟨.uncertainGroup id, position⟩
  | .sequence parts, captured => certainAfter groups parts captured
  | .choice options, captured => certainOfAny groups options captured
  | .repetition body least _ _, captured => do
      let after ← certain groups body captured
      return if least = 0 then captured else after
  | .group (.capturing number _) body, captured =>
      return number :: (← certain groups body captured)
  | .group kind body, captured => do
      -- The body of an assertion is never written out.
      if kind.isLookaround then
        pass body.referenceCount
        return captured
      else certain groups body captured
  | _, captured => return captured

/-- The groups that have certainly captured behind all parts of a sequence. -/
def certainAfter (groups : Groups) :
    List Regex → (captured : List Nat) → ReferenceCheck (List Nat)
  | [], captured => return captured
  | part :: parts, captured => do
      let captured ← certain groups part captured
      certainAfter groups parts captured

/-- The groups that have certainly captured behind each of several options. -/
def certainOfAny (groups : Groups) :
    List Regex → (captured : List Nat) → ReferenceCheck (List Nat)
  | [], captured => return captured
  | [option], captured => certain groups option captured
  | option :: options, captured => do
      let first ← certain groups option captured
      let rest ← certainOfAny groups options captured
      return first.filter (rest.contains ·)
end

end ReferenceCheck

/-- Refuse a tree with a backreference to a group that may have no text. -/
def Groups.check (groups : Groups) (tree : Regex) : Except Located Unit := do
  let _ ← (ReferenceCheck.certain groups tree []).run groups.references.reverse

end Exemplar
