import Exemplar.Proofs.Regex.Prune
import Exemplar.Proofs.Regex.Rereading
import Exemplar.Proofs.Regex.Shares

/-!
# What becomes of the groups of a tree

Pruning and simplification drop capturing groups but make no new ones. A group that is left is an
old one whose body was pruned (`exists_group_of_prune`) or simplified (`hasGroups_simplify`), and
the numbers that simplification leaves are some of those that were there, in the same order
(`groupNumbers_simplify_sublist`).
-/

namespace Exemplar.Regex

/-- The numbers of several trees are those of each. -/
theorem groupNumbersOfAll_eq_flatMap (trees : List Regex) :
    groupNumbersOfAll trees = trees.flatMap groupNumbers := by
  induction trees with
  | nil => rfl
  | cons tree trees ih => rw [groupNumbersOfAll, ih, List.flatMap_cons]

/-- The groups of a tree are some of those of a list with the tree in it. -/
theorem groupNumbers_sublist_of_mem {tree : Regex} {trees : List Regex} (h : tree ∈ trees) :
    tree.groupNumbers.Sublist (groupNumbersOfAll trees) := by
  induction trees with
  | nil => cases h
  | cons head trees ih =>
    rcases List.mem_cons.1 h with rfl | h
    · exact List.sublist_append_left ..
    · exact (ih h).trans (List.sublist_append_right ..)

/-- The numbers of two lists of trees are those of both. -/
theorem groupNumbersOfAll_append (first second : List Regex) :
    groupNumbersOfAll (first ++ second) = groupNumbersOfAll first ++ groupNumbersOfAll second := by
  simp [groupNumbersOfAll_eq_flatMap]

/-- Parts in a row have the numbers of the parts. -/
@[simp] theorem groupNumbers_inSequence (parts : List Regex) :
    (inSequence parts).groupNumbers = groupNumbersOfAll parts := by
  cases parts <;> rfl

/-- One of several options has the numbers of the options. -/
@[simp] theorem groupNumbers_anyOf (options : List Regex) :
    (anyOf options).groupNumbers = groupNumbersOfAll options := by
  cases options <;> rfl

/-! ## Pruning -/

/-- What is left of several trees is what is left of each. -/
theorem exists_prune_of_mem_pruneEach {trees pruned : List Regex}
    (h : pruneEach trees = some pruned) {left : Regex} (hleft : left ∈ pruned) :
    ∃ tree ∈ trees, tree.prune = some left := by
  induction trees generalizing pruned with
  | nil => cases h; cases hleft
  | cons tree trees ih =>
    obtain ⟨first, rest, hfirst, hrest, rfl⟩ := pruneEach_cons_eq_some.1 h
    rcases List.mem_cons.1 hleft with rfl | hleft
    · exact ⟨tree, by simp, hfirst⟩
    · obtain ⟨other, hother, hprune⟩ := ih hrest hleft
      exact ⟨other, List.mem_cons_of_mem _ hother, hprune⟩

/-- A group that is left of a tree is what is left of a group of the tree. -/
theorem exists_group_of_prune {tree pruned left : Regex} {number : Nat} {name : Option String}
    (hprune : tree.prune = some pruned)
    (h : group (.capturing number name) left ∈ pruned.visible) :
    ∃ body, group (.capturing number name) body ∈ tree.visible ∧ body.prune = some left := by
  induction tree generalizing pruned with
  | empty => cases hprune; cases List.mem_singleton.1 h
  | literal text ignoreCase => cases hprune; cases List.mem_singleton.1 h
  | set members =>
    rw [prune] at hprune
    split at hprune
    · cases hprune
    · cases hprune
      cases List.mem_singleton.1 h
  | sequence parts ih =>
    obtain ⟨rest, hrest, rfl⟩ := prune_sequence_eq_some.1 hprune
    cases rest with
    | nil => cases List.mem_singleton.1 h
    | cons first rest =>
      rcases mem_visible_sequence.1 h with h | ⟨part', hpart', h⟩
      · cases h
      · obtain ⟨part, hpart, hprune⟩ := exists_prune_of_mem_pruneEach hrest hpart'
        obtain ⟨body, hbody, hleft⟩ := ih part hpart hprune h
        exact ⟨body, mem_visible_sequence.2 (.inr ⟨part, hpart, hbody⟩), hleft⟩
  | choice options ih =>
    obtain ⟨-, rfl⟩ := prune_choice_eq_some.1 hprune
    rcases mem_visible_choice.1 h with h | ⟨option', hoption', h⟩
    · cases h
    · obtain ⟨option, hoption, hprune⟩ := List.mem_filterMap.1 hoption'
      obtain ⟨body, hbody, hleft⟩ := ih option hoption hprune h
      exact ⟨body, mem_visible_choice.2 (.inr ⟨option, hoption, hbody⟩), hleft⟩
  | repetition inner least most mode ih =>
    rcases prune_repetition_eq_some.1 hprune with ⟨rest, hrest, rfl⟩ | ⟨-, -, rfl⟩
    · rcases mem_visible_repetition.1 h with h | h
      · cases h
      · obtain ⟨body, hbody, hleft⟩ := ih hrest h
        exact ⟨body, mem_visible_repetition.2 (.inr hbody), hleft⟩
    · cases List.mem_singleton.1 h
  | group kind inner ih =>
    rcases prune_group_eq_some.1 hprune with ⟨hnegated, rfl⟩ | ⟨-, rest, hrest, rfl⟩
    · -- Inside of an assertion nothing is seen.
      rcases mem_visible_group.1 h with h | ⟨hkind, -⟩
      · cases h
        cases hnegated
      · cases kind <;> simp_all [GroupKind.isNegated, GroupKind.isLookaround]
    · rcases mem_visible_group.1 h with h | ⟨hkind, h⟩
      · cases h
        exact ⟨inner, mem_visible_self _, hrest⟩
      · obtain ⟨body, hbody, hleft⟩ := ih hrest h
        exact ⟨body, mem_visible_group.2 (.inr ⟨hkind, hbody⟩), hleft⟩
  | backref id extent => cases hprune; cases List.mem_singleton.1 h

/-! ## Simplification -/

/-- Putting a tree in front of parts in a row adds its groups. -/
theorem groupNumbersOfAll_prepend (tree : Regex) (rest : List Regex) :
    groupNumbersOfAll (prepend tree rest) = tree.groupNumbers ++ groupNumbersOfAll rest := by
  induction tree generalizing rest with
  | empty => rfl
  | sequence parts ih =>
    rw [prepend, prependAll_eq_foldr, groupNumbers]
    induction parts with
    | nil => rfl
    | cons head parts ihparts =>
      rw [List.foldr_cons, ih head (by simp), groupNumbersOfAll, List.append_assoc,
        ihparts fun part hpart ↦ ih part (List.mem_cons_of_mem _ hpart)]
  | literal text ignoreCase =>
    rcases prepend_literal_eq text ignoreCase rest with ⟨next, rest', rfl, heq⟩ | heq
    · rw [heq]
      rfl
    · rw [heq]
      rfl
  | set members => rfl
  | choice options ih => rfl
  | repetition body least most mode ih => rfl
  | group kind body ih => rfl
  | backref id extent => rfl

/-- Joined parts have the groups of the parts. -/
theorem groupNumbers_joinParts (parts : List Regex) :
    (joinParts parts).groupNumbers = groupNumbersOfAll parts := by
  unfold joinParts
  split
  · exact (List.append_nil _).symm
  · exact groupNumbers_inSequence _

/-- Joined options have the groups of the options. -/
theorem groupNumbers_joinOptions (options : List Regex) :
    (joinOptions options).groupNumbers = groupNumbersOfAll options := by
  unfold joinOptions
  split
  · exact (List.append_nil _).symm
  · exact groupNumbers_anyOf _

/-- The options that several trees contribute have the groups of the trees. -/
theorem groupNumbersOfAll_flatMap_asOptions (trees : List Regex) :
    groupNumbersOfAll (trees.flatMap asOptions) = groupNumbersOfAll trees := by
  have hoptions (tree : Regex) : groupNumbersOfAll (asOptions tree) = tree.groupNumbers := by
    unfold asOptions
    split
    · rfl
    · exact List.append_nil _
  induction trees with
  | nil => rfl
  | cons tree trees ih =>
    rw [List.flatMap_cons, groupNumbersOfAll_append, hoptions, ih, groupNumbersOfAll]

/-- Joined copies have no other groups than the body. -/
theorem groupNumbers_joinCopies_sublist (body : Regex) (least : Nat) (most : Bound)
    (mode : RepetitionMode) :
    (joinCopies body least most mode).groupNumbers.Sublist body.groupNumbers := by
  unfold joinCopies
  split
  · exact List.nil_sublist _
  · split
    · exact .refl _
    · exact .refl _

/-- The groups of the normal form of a tree are some of the groups of the tree. -/
theorem groupNumbers_simplify_sublist (tree : Regex) :
    tree.simplify.groupNumbers.Sublist tree.groupNumbers := by
  have hlist (trees : List Regex)
      (ih : ∀ tree ∈ trees, tree.simplify.groupNumbers.Sublist tree.groupNumbers) :
      (groupNumbersOfAll (trees.map simplify)).Sublist (groupNumbersOfAll trees) := by
    induction trees with
    | nil => exact .refl _
    | cons tree trees ihtrees =>
      exact (ih tree (by simp)).append
        (ihtrees fun other hother ↦ ih other (List.mem_cons_of_mem _ hother))
  induction tree with
  | empty => exact .refl _
  | literal text ignoreCase => exact .refl _
  | set members => exact .refl _
  | sequence parts ih =>
    have hprepend := groupNumbersOfAll_prepend (sequence (parts.map simplify)) []
    rw [prepend, groupNumbersOfAll, List.append_nil, groupNumbers] at hprepend
    rw [simplify, simplifyAll_eq_map, groupNumbers_joinParts, hprepend, groupNumbers]
    exact hlist parts ih
  | choice options ih =>
    rw [simplify, simplifyAll_eq_map, groupNumbers_joinOptions, groupNumbersOfAll_flatMap_asOptions,
      groupNumbers]
    exact hlist options ih
  | repetition body least most mode ih =>
    rw [simplify, groupNumbers]
    exact (groupNumbers_joinCopies_sublist ..).trans ih
  | group kind body ih =>
    cases kind with
    | plain => exact ih
    | capturing number name => exact ih.append_left _
    | atomic => exact ih
    | lookahead negated => exact ih
    | lookbehind negated => exact ih
  | backref id extent => exact .refl _

/-- The groups of a tree outside of assertions have a property. -/
def HasGroups (property : Nat → Option String → Regex → Prop) (tree : Regex) : Prop :=
  ∀ ⦃number name body⦄, group (.capturing number name) body ∈ tree.visible →
    property number name body

section HasGroups

variable {property : Nat → Option String → Regex → Prop} {parts options : List Regex}

/-- Parts in a row have groups with a property when each of them does. -/
theorem hasGroups_sequence :
    HasGroups property (sequence parts) ↔ ∀ part ∈ parts, HasGroups property part := by
  constructor
  · intro h part hpart number name body hbody
    exact h (mem_visible_sequence.2 (.inr ⟨part, hpart, hbody⟩))
  · intro h number name body hbody
    rcases mem_visible_sequence.1 hbody with heq | ⟨part, hpart, hbody⟩
    · cases heq
    · exact h part hpart hbody

/-- Options have groups with a property when each of them does. -/
theorem hasGroups_choice :
    HasGroups property (choice options) ↔ ∀ option ∈ options, HasGroups property option := by
  constructor
  · intro h option hoption number name body hbody
    exact h (mem_visible_choice.2 (.inr ⟨option, hoption, hbody⟩))
  · intro h number name body hbody
    rcases mem_visible_choice.1 hbody with heq | ⟨option, hoption, hbody⟩
    · cases heq
    · exact h option hoption hbody

/-- The empty string has no groups. -/
theorem hasGroups_empty : HasGroups property empty := by
  intro number name body hbody
  cases List.mem_singleton.1 hbody

/-- A literal has no groups. -/
theorem hasGroups_literal (text : List Char) (ignoreCase : Bool) :
    HasGroups property (literal text ignoreCase) := by
  intro number name body hbody
  cases List.mem_singleton.1 hbody

/-- Copies have the groups of the body. -/
theorem HasGroups.repeated {body : Regex} (h : HasGroups property body) (least : Nat) (most : Bound)
    (mode : RepetitionMode) : HasGroups property (repeated body least most mode) := by
  intro number name inner hinner
  rcases mem_visible_repetition.1 hinner with heq | hinner
  · cases heq
  · exact h hinner

/-- Trees that are joined to one sequence have groups with a property when each of them does. -/
theorem HasGroups.joinParts {trees : List Regex} (h : ∀ tree ∈ trees, HasGroups property tree) :
    HasGroups property (joinParts (prependAll trees [])) := by
  have hparts := forall_mem_prependAll (fun _ h ↦ hasGroups_sequence.1 h)
    (fun _ _ _ _ _ ↦ hasGroups_literal ..) h
  generalize prependAll trees [] = row at hparts
  unfold Regex.joinParts
  split
  · exact hparts _ (by simp)
  · cases row with
    | nil => exact hasGroups_empty
    | cons part row => exact hasGroups_sequence.2 hparts

/-- Trees that are joined to one choice have groups with a property when each of them does. -/
theorem HasGroups.joinOptions {trees : List Regex}
    (h : ∀ tree ∈ trees, HasGroups property tree) :
    HasGroups property (joinOptions (trees.flatMap asOptions)) := by
  have hoptions := forall_mem_asOptions (fun _ h ↦ hasGroups_choice.1 h) h
  generalize trees.flatMap asOptions = row at hoptions
  unfold Regex.joinOptions
  split
  · exact hoptions _ (by simp)
  · cases row with
    | nil => exact hasGroups_empty
    | cons option row => exact hasGroups_choice.2 hoptions

/-- Joined copies have groups with a property when the body does. -/
theorem HasGroups.joinCopies {body : Regex} (h : HasGroups property body) (least : Nat)
    (most : Bound) (mode : RepetitionMode) :
    HasGroups property (joinCopies body least most mode) := by
  unfold Regex.joinCopies
  split
  · exact hasGroups_empty
  · split
    · exact h
    · exact h.repeated least most mode

end HasGroups

/-- There is a group of the tree that has the given body when it is simplified. -/
def IsSimplifiedGroup (tree : Regex) (number : Nat) (name : Option String) (body' : Regex) : Prop :=
  ∃ body, group (.capturing number name) body ∈ tree.visible ∧ body' = body.simplify

/-- The simplified groups of a part are simplified groups of the tree. -/
theorem HasGroups.of_part {part tree simplified : Regex}
    (h : HasGroups part.IsSimplifiedGroup simplified)
    (hpart : ∀ node ∈ part.visible, node ∈ tree.visible) :
    HasGroups tree.IsSimplifiedGroup simplified := by
  intro number name body' hbody'
  obtain ⟨body, hbody, rfl⟩ := h hbody'
  exact ⟨body, hpart _ hbody, rfl⟩

/-- A group of the normal form of a tree is a group of the tree with a simplified body. -/
theorem hasGroups_simplify (tree : Regex) : HasGroups tree.IsSimplifiedGroup tree.simplify := by
  induction tree with
  | empty => exact hasGroups_empty
  | literal text ignoreCase => exact hasGroups_literal text ignoreCase
  | set members =>
    intro number name body hbody
    cases List.mem_singleton.1 hbody
  | sequence parts ih =>
    rw [simplify, simplifyAll_eq_map]
    refine .joinParts fun simplified hsimplified ↦ ?_
    obtain ⟨part, hpart, rfl⟩ := List.mem_map.1 hsimplified
    exact (ih part hpart).of_part fun node hnode ↦
      mem_visible_sequence.2 (.inr ⟨part, hpart, hnode⟩)
  | choice options ih =>
    rw [simplify, simplifyAll_eq_map]
    refine .joinOptions fun simplified hsimplified ↦ ?_
    obtain ⟨option, hoption, rfl⟩ := List.mem_map.1 hsimplified
    exact (ih option hoption).of_part fun node hnode ↦
      mem_visible_choice.2 (.inr ⟨option, hoption, hnode⟩)
  | repetition inner least most mode ih =>
    rw [simplify]
    exact .joinCopies (ih.of_part fun node hnode ↦ mem_visible_repetition.2 (.inr hnode))
      least most mode
  | group kind inner ih =>
    have hinner (hkind : kind.isLookaround = false) :
        HasGroups (group kind inner).IsSimplifiedGroup inner.simplify :=
      ih.of_part fun node hnode ↦ mem_visible_group.2 (.inr ⟨hkind, hnode⟩)
    by_cases hplain : kind = .plain
    · subst hplain
      exact hinner rfl
    · rw [simplify]
      · intro number name body' hbody'
        rcases mem_visible_group.1 hbody' with heq | ⟨hkind, hbody'⟩
        · cases heq
          exact ⟨inner, mem_visible_self _, rfl⟩
        · exact hinner hkind hbody'
      · exact hplain
  | backref id extent =>
    intro number name body hbody
    cases List.mem_singleton.1 hbody

end Exemplar.Regex
