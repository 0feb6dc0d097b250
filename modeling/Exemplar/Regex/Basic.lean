import Exemplar.CharSet.Basic
import Exemplar.Extent.Basic
import Exemplar.GroupId

/-!
# Pattern trees

A `Regex` is the tree of a pattern. Its strings are built from left to right: a literal stands for
its text, a set for one member, a sequence for its parts in a row, a choice for one of its options,
a repetition for several copies of its body, a group for its body, and a backreference for the text
that a group captured last. Lookarounds stand for nothing.

The functions `ofText`, `inSequence`, `anyOf` and `repeated` build trees without empty literals,
empty sequences and empty choices, and with ordered repetition counts.
-/

namespace Exemplar

/-- How eagerly a repetition matches. It does not change the strings of the tree. -/
inductive RepetitionMode where
  | greedy
  | reluctant
  | possessive
  deriving DecidableEq, Repr, Inhabited

/-- What a pair of parentheses does. With `capturing`, the text of the body is kept under a number
and perhaps a name, with `plain`, the body is only grouped, and with `atomic`, it is matched in one
way only. The body of a lookaround is looked for behind or before the current position, and must be
absent when negated. -/
inductive GroupKind where
  | capturing (number : Nat) (name : Option String)
  | plain
  | atomic
  | lookahead (negated : Bool)
  | lookbehind (negated : Bool)
  deriving DecidableEq, Repr, Inhabited

/-- Whether the group is an assertion without text. -/
def GroupKind.isLookaround : GroupKind → Bool
  | lookahead _ | lookbehind _ => true
  | _ => false

/-- Whether the group is an assertion that its body is absent. -/
def GroupKind.isNegated : GroupKind → Bool
  | lookahead negated | lookbehind negated => negated
  | _ => false

/-- The tree of a pattern. A `literal` is a text in which case may not count, and a `set` stands
for one member. A `sequence` has all its parts in a row, a `choice` one of its options, and a
`repetition` copies of its body. The text behind a `backref` is that of a group, and its length is
in the given extent. -/
inductive Regex where
  | empty
  | literal (text : List Char) (ignoreCase : Bool)
  | set (members : CharSet)
  | sequence (parts : List Regex)
  | choice (options : List Regex)
  | repetition (body : Regex) (least : Nat) (most : Bound) (mode : RepetitionMode)
  | group (kind : GroupKind) (body : Regex)
  | backref (id : GroupId) (extent : Extent)
  deriving Inhabited

namespace Regex

mutual
/-- Whether two trees are the same. -/
def beq : Regex → Regex → Bool
  | empty, empty => true
  | literal text ignoreCase, literal text' ignoreCase' => text == text' && ignoreCase == ignoreCase'
  | set members, set members' => members == members'
  | sequence parts, sequence parts' => beqAll parts parts'
  | choice options, choice options' => beqAll options options'
  | repetition body least most mode, repetition body' least' most' mode' =>
      beq body body' && least == least' && most == most' && mode == mode'
  | group kind body, group kind' body' => kind == kind' && beq body body'
  | backref id extent, backref id' extent' => id == id' && extent == extent'
  | _, _ => false

/-- Whether two lists of trees are the same. -/
def beqAll : List Regex → List Regex → Bool
  | [], [] => true
  | tree :: trees, tree' :: trees' => beq tree tree' && beqAll trees trees'
  | _, _ => false
end

mutual
/-- Equal trees are found to be the same. -/
theorem beq_self : (tree : Regex) → beq tree tree = true
  | empty => rfl
  | literal .. => by simp [beq]
  | set _ => by simp [beq]
  | sequence parts => beqAll_self parts
  | choice options => beqAll_self options
  | repetition body .. => by simp [beq, beq_self body]
  | group _ body => by simp [beq, beq_self body]
  | backref .. => by simp [beq]

/-- Equal lists of trees are found to be the same. -/
theorem beqAll_self : (trees : List Regex) → beqAll trees trees = true
  | [] => rfl
  | tree :: trees => by simp [beqAll, beq_self tree, beqAll_self trees]
end

mutual
/-- Trees that are found to be the same are equal. -/
theorem eq_of_beq : (tree other : Regex) → beq tree other = true → tree = other
  | empty, other, h => by cases other <;> simp_all [beq]
  | literal .., other, h => by cases other <;> simp_all [beq]
  | set _, other, h => by cases other <;> simp_all [beq]
  | sequence parts, other, h => by
      cases other <;> simp_all [beq]
      exact eq_of_beqAll _ _ h
  | choice options, other, h => by
      cases other <;> simp_all [beq]
      exact eq_of_beqAll _ _ h
  | repetition body .., other, h => by
      cases other <;> simp_all [beq]
      exact eq_of_beq _ _ h.1.1.1
  | group _ body, other, h => by
      cases other <;> simp_all [beq]
      exact eq_of_beq _ _ h.2
  | backref .., other, h => by cases other <;> simp_all [beq]

/-- Lists of trees that are found to be the same are equal. -/
theorem eq_of_beqAll : (trees others : List Regex) → beqAll trees others = true → trees = others
  | [], others, h => by cases others <;> simp_all [beqAll]
  | tree :: trees, others, h => by
      cases others with
      | nil => simp [beqAll] at h
      | cons other others =>
        simp only [beqAll, Bool.and_eq_true] at h
        rw [eq_of_beq tree other h.1, eq_of_beqAll trees others h.2]
end

instance : DecidableEq Regex := fun tree other ↦
  if h : beq tree other = true then isTrue (eq_of_beq tree other h)
  else isFalse fun heq ↦ h (heq ▸ beq_self tree)

/-- The tree of a text. -/
def ofText (text : List Char) (ignoreCase : Bool) : Regex :=
  if text.isEmpty then empty else literal text ignoreCase

/-- The tree of parts in a row. -/
def inSequence (parts : List Regex) : Regex :=
  if parts.isEmpty then empty else sequence parts

/-- The tree of one of several options. -/
def anyOf (options : List Regex) : Regex :=
  if options.isEmpty then empty else choice options

/-- The tree of `least` to `most` copies of a body. A `most` below `least` counts as `least`. -/
def repeated (body : Regex) (least : Nat) (most : Bound) (mode : RepetitionMode) : Regex :=
  repetition body least (most.raise least) mode

mutual
/-- The extent of the strings of a tree. -/
def extent : Regex → Extent
  | empty => .zero
  | literal text _ => .ofLength text.length
  | set _ => .ofLength 1
  | sequence parts => Extent.inSequence (extents parts)
  | choice options => Extent.anyOf (extents options)
  | repetition body least most _ => (extent body).repeated least most
  | group kind body => if kind.isLookaround then .zero else extent body
  | backref _ extent => extent

/-- The extents of several trees. -/
def extents : List Regex → List Extent
  | [] => []
  | tree :: trees => extent tree :: extents trees
end

/-- The least length of the strings of a tree. -/
def minLength (tree : Regex) : Nat :=
  tree.extent.min

/-- The bound on the length of the strings of a tree. -/
def maxLength (tree : Regex) : Bound :=
  tree.extent.max

mutual
/-- Replace every set by another one. -/
def mapSets (replace : CharSet → CharSet) : Regex → Regex
  | set members => set (replace members)
  | sequence parts => sequence (mapSetsAll replace parts)
  | choice options => choice (mapSetsAll replace options)
  | repetition body least most mode => repetition (mapSets replace body) least most mode
  | group kind body => group kind (mapSets replace body)
  | tree => tree

/-- Replace every set in several trees. -/
def mapSetsAll (replace : CharSet → CharSet) : List Regex → List Regex
  | [] => []
  | tree :: trees => mapSets replace tree :: mapSetsAll replace trees
end

/-- The extents of several trees are those of each. -/
@[simp] theorem extents_eq_map (trees : List Regex) : extents trees = trees.map extent := by
  induction trees with
  | nil => rfl
  | cons tree trees ih => simp [extents, ih]

/-- Replacing the sets in several trees replaces those of each. -/
@[simp] theorem mapSetsAll_eq_map (replace : CharSet → CharSet) (trees : List Regex) :
    mapSetsAll replace trees = trees.map (mapSets replace) := by
  induction trees with
  | nil => rfl
  | cons tree trees ih => simp [mapSetsAll, ih]

end Regex

end Exemplar
