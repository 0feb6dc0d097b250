import Exemplar.Proofs.Length.Extent
import Exemplar.Proofs.Regex.Induction

/-!
# Properties of all parts of a tree

`tree.Everywhere property` says that a property holds of the tree and of every tree inside it, those
in assertions included. The main instance is `WellFormed`: every choice has an option and every
repetition has counts in order, as the functions that build trees see to it.

A property is `Stable` when it outlives the rewriting of a tree, which joins texts, regroups parts
and options, and replaces bodies by others that are no longer and no shorter.
-/

namespace Exemplar.Regex

mutual
/-- A property holds of the tree and of every tree inside it. -/
def Everywhere (property : Regex → Prop) : Regex → Prop
  | sequence parts => property (sequence parts) ∧ EverywhereAll property parts
  | choice options => property (choice options) ∧ EverywhereAll property options
  | repetition body least most mode =>
      property (repetition body least most mode) ∧ Everywhere property body
  | group kind body => property (group kind body) ∧ Everywhere property body
  | tree => property tree

/-- A property holds of several trees and of every tree inside them. -/
def EverywhereAll (property : Regex → Prop) : List Regex → Prop
  | [] => True
  | tree :: trees => Everywhere property tree ∧ EverywhereAll property trees
end

variable {property other : Regex → Prop}

/-- A property holds everywhere in several trees when it does in each of them. -/
theorem everywhereAll_iff {trees : List Regex} :
    EverywhereAll property trees ↔ ∀ tree ∈ trees, tree.Everywhere property := by
  induction trees with
  | nil => simp [EverywhereAll]
  | cons tree trees ih => simp [EverywhereAll, ih]

/-- A property holds everywhere in a sequence when it holds of the sequence and in its parts. -/
@[simp] theorem everywhere_sequence {parts : List Regex} :
    (sequence parts).Everywhere property ↔
      property (sequence parts) ∧ ∀ part ∈ parts, part.Everywhere property := by
  rw [Everywhere, everywhereAll_iff]

/-- A property holds everywhere in a choice when it holds of the choice and in its options. -/
@[simp] theorem everywhere_choice {options : List Regex} :
    (choice options).Everywhere property ↔
      property (choice options) ∧ ∀ option ∈ options, option.Everywhere property := by
  rw [Everywhere, everywhereAll_iff]

/-- A property holds everywhere in a repetition when it holds of the repetition and in its body. -/
@[simp] theorem everywhere_repetition {body : Regex} {least : Nat} {most : Bound}
    {mode : RepetitionMode} :
    (repetition body least most mode).Everywhere property ↔
      property (repetition body least most mode) ∧ body.Everywhere property := by
  rw [Everywhere]

/-- A property holds everywhere in a group when it holds of the group and in its body. -/
@[simp] theorem everywhere_group {kind : GroupKind} {body : Regex} :
    (group kind body).Everywhere property ↔
      property (group kind body) ∧ body.Everywhere property := by
  rw [Everywhere]

/-- What holds everywhere in a tree holds of the tree. -/
theorem Everywhere.here {tree : Regex} (h : tree.Everywhere property) : property tree := by
  cases tree with
  | sequence => exact h.1
  | choice => exact h.1
  | repetition => exact h.1
  | group => exact h.1
  | empty => exact h
  | literal => exact h
  | set => exact h
  | backref => exact h

/-- What follows from a property everywhere holds everywhere. -/
theorem Everywhere.mono (himp : ∀ tree, property tree → other tree) {tree : Regex}
    (h : tree.Everywhere property) : tree.Everywhere other := by
  induction tree with
  | sequence parts ih =>
    rw [everywhere_sequence] at h ⊢
    exact ⟨himp _ h.1, fun part hpart ↦ ih part hpart (h.2 part hpart)⟩
  | choice options ih =>
    rw [everywhere_choice] at h ⊢
    exact ⟨himp _ h.1, fun option hoption ↦ ih option hoption (h.2 option hoption)⟩
  | repetition body least most mode ih => exact ⟨himp _ h.1, ih h.2⟩
  | group kind body ih => exact ⟨himp _ h.1, ih h.2⟩
  | empty => exact himp _ h
  | literal => exact himp _ h
  | set => exact himp _ h
  | backref => exact himp _ h

/-- What a choice and a repetition owe to the functions that build trees: there is an option, and
the counts are sizes in order. -/
def IsBuilt : Regex → Prop
  | choice options => options ≠ []
  | repetition _ least most _ => most.Allows least ∧ least < Size.modulus
  | _ => True

/-- The tree could be built with `ofText`, `inSequence`, `anyOf` and `repeated`, up to empty
literals and empty sequences. -/
def WellFormed (tree : Regex) : Prop :=
  tree.Everywhere IsBuilt

/-- A property that outlives the rewriting of a tree. It demands what the functions that build
trees see to. The empty string, any parts in a row and any choice have it, and joined texts do when
both texts do. It does not depend on the body of a repetition, and the body of a group may be
replaced by one of a narrower extent. -/
structure Stable (property : Regex → Prop) : Prop where
  isBuilt {tree : Regex} : property tree → IsBuilt tree
  empty : property empty
  literal {left right : List Char} {ignoreCase : Bool} :
    property (literal left ignoreCase) → property (literal right ignoreCase) →
      property (literal (left ++ right) ignoreCase)
  sequence (parts : List Regex) : property (sequence parts)
  choice {options : List Regex} : options ≠ [] → property (choice options)
  repetition {body body' : Regex} {least : Nat} {most : Bound} {mode : RepetitionMode} :
    property (repetition body least most mode) → property (repetition body' least most mode)
  group {kind : GroupKind} {body body' : Regex} :
    property (group kind body) → body'.extent.Within body.extent → property (group kind body')

/-- The property of trees that were built is stable. -/
theorem stable_isBuilt : Stable IsBuilt where
  isBuilt h := h
  empty := trivial
  literal _ _ := trivial
  sequence _ := trivial
  choice h := h
  repetition h := h
  group _ _ := trivial

namespace Stable

/-- A stable property everywhere makes a tree well-formed. -/
theorem wellFormed (hstable : Stable property) {tree : Regex} (h : tree.Everywhere property) :
    tree.WellFormed :=
  h.mono fun _ ↦ hstable.isBuilt

/-- A stable property holds everywhere in parts in a row. -/
theorem inSequence (hstable : Stable property) {parts : List Regex}
    (h : ∀ part ∈ parts, part.Everywhere property) :
    (inSequence parts).Everywhere property := by
  cases parts with
  | nil => exact hstable.empty
  | cons part parts => exact everywhere_sequence.2 ⟨hstable.sequence _, h⟩

/-- A stable property holds everywhere in one of several options. -/
theorem anyOf (hstable : Stable property) {options : List Regex}
    (h : ∀ option ∈ options, option.Everywhere property) :
    (anyOf options).Everywhere property := by
  cases options with
  | nil => exact hstable.empty
  | cons option options => exact everywhere_choice.2 ⟨hstable.choice (by simp), h⟩

/-- A stable property holds everywhere in copies of another body. -/
theorem repeated (hstable : Stable property) {body body' : Regex} {least : Nat} {most : Bound}
    {mode : RepetitionMode} (h : property (Regex.repetition body least most mode))
    (hbody : body'.Everywhere property) : (body'.repeated least most mode).Everywhere property := by
  have hallows : most.Allows least := (hstable.isBuilt h).1
  rw [Regex.repeated, Bound.raise_of_allows hallows]
  exact everywhere_repetition.2 ⟨hstable.repetition h, hbody⟩

end Stable

/-- A sequence is well-formed when its parts are. -/
@[simp] theorem wellFormed_sequence {parts : List Regex} :
    (sequence parts).WellFormed ↔ ∀ part ∈ parts, part.WellFormed := by
  simp [WellFormed, IsBuilt]

/-- A choice is well-formed when it has options and they are well-formed. -/
@[simp] theorem wellFormed_choice {options : List Regex} :
    (choice options).WellFormed ↔
      options ≠ [] ∧ ∀ option ∈ options, option.WellFormed := by
  simp [WellFormed, IsBuilt]

/-- A repetition is well-formed when its counts are sizes in order and its body is well-formed. -/
@[simp] theorem wellFormed_repetition {body : Regex} {least : Nat} {most : Bound}
    {mode : RepetitionMode} :
    (repetition body least most mode).WellFormed ↔
      (most.Allows least ∧ least < Size.modulus) ∧ body.WellFormed := by
  simp [WellFormed, IsBuilt]

/-- A group is well-formed when its body is. -/
@[simp] theorem wellFormed_group {kind : GroupKind} {body : Regex} :
    (group kind body).WellFormed ↔ body.WellFormed := by
  simp [WellFormed, IsBuilt]

/-- The empty string is a well-formed tree. -/
@[simp] theorem wellFormed_empty : empty.WellFormed :=
  trivial

/-- A literal is a well-formed tree. -/
@[simp] theorem wellFormed_literal (text : List Char) (ignoreCase : Bool) :
    (literal text ignoreCase).WellFormed :=
  trivial

/-- A set is a well-formed tree. -/
@[simp] theorem wellFormed_set (members : CharSet) : (set members).WellFormed :=
  trivial

/-- A backreference is a well-formed tree. -/
@[simp] theorem wellFormed_backref (id : GroupId) (extent : Extent) :
    (backref id extent).WellFormed :=
  trivial

/-- Copies of a well-formed tree make a well-formed tree. -/
theorem wellFormed_repeated {body : Regex} (h : body.WellFormed) {least : Nat}
    (hleast : least < Size.modulus) (most : Bound) (mode : RepetitionMode) :
    (body.repeated least most mode).WellFormed :=
  wellFormed_repetition.2 ⟨⟨most.allows_raise least, hleast⟩, h⟩

end Exemplar.Regex
