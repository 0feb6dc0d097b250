import Exemplar.Regex.Basic

/-!
# Impossible parts

An empty set has no member, so nothing that needs one can be written out. `prune` removes the
options and the repetitions that can only fail, and gives up when the whole tree can only fail.
-/

namespace Exemplar.Regex

mutual
/-- The tree without its impossible parts, or nothing when the tree is impossible. An assertion that
its body is absent always holds when the body is impossible, and is kept as it is. -/
def prune : Regex → Option Regex
  | set members => if members.isEmpty then none else some (set members)
  | sequence parts => (pruneEach parts).map inSequence
  | choice options =>
      match pruneAny options with
      | [] => none
      | options => some (anyOf options)
  | repetition body least most mode =>
      match prune body with
      | some body => some (repeated body least most mode)
      | none => if least = 0 then some empty else none
  | group kind body =>
      if kind.isNegated then some (group kind body) else (prune body).map (group kind)
  | tree => some tree

/-- All trees without their impossible parts, or nothing when one of them is impossible. -/
def pruneEach : List Regex → Option (List Regex)
  | [] => some []
  | tree :: trees =>
      match prune tree, pruneEach trees with
      | some tree, some trees => some (tree :: trees)
      | _, _ => none

/-- The possible trees without their impossible parts. -/
def pruneAny : List Regex → List Regex
  | [] => []
  | tree :: trees =>
      match prune tree with
      | some tree => tree :: pruneAny trees
      | none => pruneAny trees
end

/-- The possible trees are those that are possible one by one. -/
theorem pruneAny_eq_filterMap (trees : List Regex) : pruneAny trees = trees.filterMap prune := by
  induction trees with
  | nil => rfl
  | cons tree trees ih =>
    simp only [pruneAny, List.filterMap_cons]
    cases prune tree <;> simp [ih]

end Exemplar.Regex
