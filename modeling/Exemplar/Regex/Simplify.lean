import Exemplar.Regex.Basic

/-!
# Simplification

`simplify` brings a tree into a normal form without changing its strings: sequences and choices are
flattened, neighbouring literals are merged, and parts that stand for the empty string, plain groups
and repetitions of exactly one copy disappear.
-/

namespace Exemplar.Regex

mutual
/-- Put a simplified tree in front of the parts of a sequence. -/
def prepend : Regex → List Regex → List Regex
  | empty, rest => rest
  | sequence parts, rest => prependAll parts rest
  | literal text ignoreCase, literal next ignoreCase' :: rest =>
      if ignoreCase = ignoreCase' then literal (text ++ next) ignoreCase :: rest
      else literal text ignoreCase :: literal next ignoreCase' :: rest
  | tree, rest => tree :: rest

/-- Put several simplified trees in front of the parts of a sequence. -/
def prependAll : List Regex → List Regex → List Regex
  | [], rest => rest
  | tree :: trees, rest => prepend tree (prependAll trees rest)
end

/-- The options that a simplified tree contributes to a choice. -/
def asOptions : Regex → List Regex
  | choice options => options
  | tree => [tree]

/-- A sequence of simplified parts, where a single part stands for itself. -/
def joinParts : List Regex → Regex
  | [part] => part
  | parts => inSequence parts

/-- A choice of simplified options, where a single option stands for itself. -/
def joinOptions : List Regex → Regex
  | [option] => option
  | options => anyOf options

/-- A repetition of a simplified body. -/
def joinCopies (body : Regex) (least : Nat) (most : Bound) (mode : RepetitionMode) : Regex :=
  if most = 0 ∨ body = empty then empty
  else if least = 1 ∧ most = 1 then body
  else repeated body least most mode

mutual
/-- The normal form of a tree. -/
def simplify : Regex → Regex
  | sequence parts => joinParts (prependAll (simplifyAll parts) [])
  | choice options => joinOptions ((simplifyAll options).flatMap asOptions)
  | repetition body least most mode => joinCopies (simplify body) least most mode
  | group .plain body => simplify body
  | group kind body => group kind (simplify body)
  | tree => tree

/-- The normal forms of several trees. -/
def simplifyAll : List Regex → List Regex
  | [] => []
  | tree :: trees => simplify tree :: simplifyAll trees
end

/-- The normal forms of several trees are those of each. -/
@[simp] theorem simplifyAll_eq_map (trees : List Regex) :
    simplifyAll trees = trees.map simplify := by
  induction trees with
  | nil => rfl
  | cons tree trees ih => simp [simplifyAll, ih]

end Exemplar.Regex
