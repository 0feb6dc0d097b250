import Exemplar.Extent.Budget
import Exemplar.Generation.Draft
import Exemplar.Regex.Sized

/-!
# Generating a string

`Regex.emit` writes a string of a tree, and draws a choice wherever the tree leaves one. A budget
says how long the string should become. It decides how often an unbounded repetition is run, and is
passed on to the parts in the same way in which a length target is split.
-/

namespace Exemplar

variable {σ : Type}

/-- Write `count` copies of a body that has the least length `least`, where every copy gets an even
share of what is left of the budget. -/
def Generator.copies (emit : Option Nat → Generator σ Unit) (least : Nat) :
    (count : Nat) → Option Nat → Generator σ Unit
  | 0, _ => return
  | count + 1, budget => do
      let written ← measure (emit (budget.map (Extent.copyBudget least (count + 1))))
      copies emit least count (budget.map (· - written))

namespace Regex

mutual
/-- Write a string of the tree. -/
def emit [RandomSource σ] : Regex → Option Nat → Generator σ Unit
  | empty, _ => return
  | literal text _, _ => .append text
  | set members, _ => .pushMember members
  | sequence parts, budget => emitParts parts budget
  | choice options, budget => do
      let index ← .drawBetween 0 options.length
      emitOption options index budget
  | repetition body least most _, budget => do
      let limit := body.extent.mostCopies least most budget
      -- Behind the largest size the sum wraps, and the range of counts is then empty.
      let count ← if limit > least then .drawBetween least (Size.addWrapped limit 1)
          else pure least
      .copies (fun budget ↦ emit body budget) body.minLength count budget
  | group (.capturing number name) body, budget =>
      .capturing (groupIds number name) (emit body budget)
  | group .plain body, budget => emit body budget
  | group .atomic body, budget => emit body budget
  | group (.lookahead _) _, _ => return
  | group (.lookbehind _) _, _ => return
  | backref id _, _ => .repeatCapture id

/-- Write the parts of a sequence, each within its share of what is left of the budget. -/
def emitParts [RandomSource σ] : List Regex → Option Nat → Generator σ Unit
  | [], _ => return
  | part :: parts, budget => do
      let written ← .measure
        (emit part (budget.map (Extent.firstBudget (part.extent :: extents parts))))
      emitParts parts (budget.map (· - written))

/-- Write the option with the given number. -/
def emitOption [RandomSource σ] : List Regex → Nat → Option Nat → Generator σ Unit
  | [], _, _ => return
  | option :: _, 0, budget => emit option budget
  | _ :: options, index + 1, budget => emitOption options index budget
end

/-- Generate a string of the tree. With a target the tree is sized first, so that the string has no
more than `target` characters as far as the least length of the tree allows it. -/
def generate [RandomSource σ] (tree : Regex) (source : σ) (target : Option Nat) :
    Except GenerationError (String × σ) :=
  let tree' := match target with
    | some target => tree.sized target
    | none => tree
  match (tree'.emit target).run { source } with
  | .ok _ draft => .ok (draft.text, draft.source)
  | .error error _ => .error error

end Regex

end Exemplar
