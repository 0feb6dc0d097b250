import Exemplar.Proofs.Regex.NormalForm
import Mathlib.Data.List.Chain

/-!
# What simplification leaves

`IsReduced` lists what a node of a simplified tree cannot be: a sequence with a part that could be
spliced in or dropped or with two literals that could be one, a choice with a choice among its
options, a row of fewer than two trees, a repetition that stands for its body or for nothing, or a
plain group. The trees of which this holds everywhere are those that simplification leaves alone
(`simplify_eq_self_iff`), and one pass reaches such a tree (`simplify_reduced`), although each of
its steps may prepare another one: a dropped part brings two literals together, and a group that
goes away can leave a sequence in a sequence.
-/

namespace Exemplar.Regex

/-- Two neighbours in a sequence are literals that could be one. -/
def CanMerge : Regex → Regex → Prop
  | literal _ ignoreCase, literal _ ignoreCase' => ignoreCase = ignoreCase'
  | _, _ => False

/-- The parts of a sequence are flat: none is empty, none is a sequence, and no two neighbours are
literals that could be one. -/
structure IsFlat (parts : List Regex) : Prop where
  ne_empty : ∀ part ∈ parts, part ≠ empty
  ne_sequence : ∀ part ∈ parts, ∀ inner, part ≠ sequence inner
  apart : parts.IsChain fun part next ↦ ¬ CanMerge part next

/-- Nothing is left to simplify at the node. -/
def IsReduced : Regex → Prop
  | sequence parts => 2 ≤ parts.length ∧ IsFlat parts
  | choice options =>
      2 ≤ options.length ∧ ∀ option ∈ options, ∀ inner, option ≠ choice inner
  | repetition body least most _ =>
      body ≠ empty ∧ ¬ (least = 1 ∧ most = 1) ∧ ¬ (least = 0 ∧ most = 0) ∧
      most.Allows least
  | group kind _ => kind ≠ .plain
  | _ => True

/-! ## Flat rows -/

/-- A row without parts is flat. -/
theorem isFlat_nil : IsFlat [] where
  ne_empty := by simp
  ne_sequence := by simp
  apart := .nil

/-- A row is flat when its first part is a part of a flat row that does not merge with the next
one, and the others are flat. -/
theorem isFlat_cons {tree : Regex} {rest : List Regex} :
    IsFlat (tree :: rest) ↔
      (tree ≠ empty ∧ (∀ inner, tree ≠ sequence inner) ∧ ∀ next ∈ rest.head?,
        ¬ CanMerge tree next) ∧ IsFlat rest := by
  constructor
  · rintro ⟨hempty, hsequence, hapart⟩
    obtain ⟨hempty, hempties⟩ := List.forall_mem_cons.1 hempty
    obtain ⟨hsequence, hsequences⟩ := List.forall_mem_cons.1 hsequence
    obtain ⟨hhead, hrest⟩ := List.isChain_cons.1 hapart
    exact ⟨⟨hempty, hsequence, hhead⟩, hempties, hsequences, hrest⟩
  · rintro ⟨⟨hempty, hsequence, hhead⟩, hempties, hsequences, hrest⟩
    exact ⟨List.forall_mem_cons.2 ⟨hempty, hempties⟩,
      List.forall_mem_cons.2 ⟨hsequence, hsequences⟩, List.isChain_cons.2 ⟨hhead, hrest⟩⟩

/-- What merges with a literal does not depend on its text. -/
theorem canMerge_literal (text text' : List Char) (ignoreCase : Bool) (next : Regex) :
    CanMerge (literal text ignoreCase) next ↔ CanMerge (literal text' ignoreCase) next := by
  cases next <;> exact Iff.rfl

/-- Putting a tree in front of a flat row gives a flat row. -/
theorem IsFlat.prepend (tree : Regex) {rest : List Regex} (h : IsFlat rest) :
    IsFlat (tree.prepend rest) := by
  induction tree generalizing rest with
  | empty => exact h
  | sequence parts ih =>
    rw [Regex.prepend, prependAll_eq_foldr]
    induction parts with
    | nil => exact h
    | cons part parts ihparts =>
      exact ih part (by simp) (ihparts fun other hother ↦
        ih other (List.mem_cons_of_mem _ hother))
  | literal text ignoreCase =>
    cases rest with
    | nil => exact isFlat_cons.2 ⟨⟨by simp, by simp, by simp⟩, h⟩
    | cons head rest =>
      by_cases hmerge : CanMerge (literal text ignoreCase) head
      · -- The joined literal merges with the next part no more than the literal in front did.
        cases head with
        | literal next ignoreCase' =>
          cases hmerge
          obtain ⟨⟨-, -, hnext⟩, hrest⟩ := isFlat_cons.1 h
          rw [Regex.prepend, if_pos rfl]
          exact isFlat_cons.2 ⟨⟨by simp, by simp, fun other hother ↦
            (canMerge_literal _ next ignoreCase other).not.2 (hnext other hother)⟩, hrest⟩
        | _ => cases hmerge
      · have hfront : (literal text ignoreCase).prepend (head :: rest) =
            literal text ignoreCase :: head :: rest := by
          cases head with
          | literal next ignoreCase' => exact if_neg hmerge
          | _ => rfl
        rw [hfront]
        exact isFlat_cons.2 ⟨⟨by simp, by simp, by simpa using hmerge⟩, h⟩
  | set members => exact isFlat_cons.2 ⟨⟨by simp, by simp, fun _ _ h ↦ h⟩, h⟩
  | choice options ih => exact isFlat_cons.2 ⟨⟨by simp, by simp, fun _ _ h ↦ h⟩, h⟩
  | repetition body least most mode ih =>
    exact isFlat_cons.2 ⟨⟨by simp, by simp, fun _ _ h ↦ h⟩, h⟩
  | group kind body ih => exact isFlat_cons.2 ⟨⟨by simp, by simp, fun _ _ h ↦ h⟩, h⟩
  | backref id extent => exact isFlat_cons.2 ⟨⟨by simp, by simp, fun _ _ h ↦ h⟩, h⟩

/-- Trees that are put in a row make a flat row. -/
theorem isFlat_prependAll (trees : List Regex) : IsFlat (prependAll trees []) := by
  induction trees with
  | nil => exact isFlat_nil
  | cons tree trees ih => exact ih.prepend tree

/-- The parts of a flat row are in a row already. -/
theorem IsFlat.prependAll {parts : List Regex} (h : IsFlat parts) :
    prependAll parts [] = parts := by
  induction parts with
  | nil => rfl
  | cons part parts ih =>
    obtain ⟨⟨hempty, hsequence, hnext⟩, hrest⟩ := isFlat_cons.1 h
    rw [Regex.prependAll, ih hrest]
    cases part with
    | empty => exact absurd rfl hempty
    | sequence inner => exact absurd rfl (hsequence inner)
    | literal text ignoreCase =>
      rcases prepend_literal_eq text ignoreCase parts with ⟨next, rest, rfl, -⟩ | heq
      · exact absurd rfl (hnext _ rfl)
      · exact heq
    | set members => rfl
    | choice options => rfl
    | repetition body least most mode => rfl
    | group kind body => rfl
    | backref id extent => rfl

/-! ## Reduced trees -/

/-- Parts join to their own sequence when there are two or more and they are flat. -/
theorem joinParts_prependAll_eq_iff {parts : List Regex} :
    joinParts (prependAll parts []) = sequence parts ↔ 2 ≤ parts.length ∧ IsFlat parts := by
  constructor
  · intro h
    have hflat := isFlat_prependAll parts
    generalize prependAll parts [] = row at h hflat
    rcases row with _ | ⟨first, _ | ⟨second, rest⟩⟩
    · cases h
    · exact absurd h (hflat.ne_sequence first (by simp) parts)
    · cases h
      exact ⟨by simp, hflat⟩
  · rintro ⟨hlength, hflat⟩
    rw [hflat.prependAll]
    match parts, hlength with
    | first :: second :: rest, _ => rfl

/-- A tree contributes itself to a choice unless it is one. -/
theorem asOptions_eq_singleton_iff {tree : Regex} :
    asOptions tree = [tree] ↔ ∀ inner, tree ≠ choice inner := by
  cases tree with
  | choice options =>
    -- No list is an element of itself.
    have hne : options ≠ [choice options] := by
      intro h
      have := congrArg sizeOf h
      simp only [List.cons.sizeOf_spec, choice.sizeOf_spec, List.nil.sizeOf_spec] at this
      omega
    simpa [asOptions] using hne
  | _ => simp [asOptions]

/-- The normal form of a node is that nothing is left to simplify there. -/
theorem isNormal_iff_isReduced {tree : Regex} : IsNormal tree ↔ IsReduced tree := by
  cases tree with
  | sequence parts => exact joinParts_prependAll_eq_iff
  | choice options =>
    exact and_congr_right' (forall₂_congr fun option _ ↦ asOptions_eq_singleton_iff)
  | repetition body least most mode =>
    -- A bound of zero allows no other count.
    have hzero (hallows : most.Allows least) : most = 0 ↔ least = 0 ∧ most = 0 := by
      refine ⟨fun hmost ↦ ⟨?_, hmost⟩, And.right⟩
      rw [hmost] at hallows
      exact Nat.le_zero.1 hallows
    show (body ≠ empty ∧ most ≠ 0 ∧ ¬ (least = 1 ∧ most = 1) ∧ most.Allows least) ↔
      body ≠ empty ∧ ¬ (least = 1 ∧ most = 1) ∧ ¬ (least = 0 ∧ most = 0) ∧
      most.Allows least
    constructor
    · rintro ⟨hbody, hmost, hone, hallows⟩
      exact ⟨hbody, hone, (hzero hallows).not.1 hmost, hallows⟩
    · rintro ⟨hbody, hone, hnone, hallows⟩
      exact ⟨hbody, (hzero hallows).not.2 hnone, hone, hallows⟩
  | empty => exact Iff.rfl
  | literal text ignoreCase => exact Iff.rfl
  | set members => exact Iff.rfl
  | group kind body => exact Iff.rfl
  | backref id extent => exact Iff.rfl

/-- Simplification leaves a tree alone just when nothing is left to simplify anywhere in it. -/
theorem simplify_eq_self_iff {tree : Regex} :
    tree.simplify = tree ↔ tree.Everywhere IsReduced := by
  constructor
  · intro h
    have hnormal := tree.isNormal_simplify
    rw [h] at hnormal
    exact hnormal.mono fun _ ↦ isNormal_iff_isReduced.1
  · exact fun h ↦ simplify_of_isNormal (h.mono fun _ ↦ isNormal_iff_isReduced.2)

/-- One pass of simplification is enough: a second one changes nothing, and nothing is left to
simplify anywhere in the tree, the bodies of assertions included. -/
theorem simplify_reduced (tree : Regex) :
    tree.simplify.simplify = tree.simplify ∧ tree.simplify.Everywhere IsReduced :=
  ⟨tree.simplify_simplify, simplify_eq_self_iff.1 tree.simplify_simplify⟩

/-- In an assertion, the body of a plain group is spliced in, and the literals meet where a
repetition without copies stood. -/
example :
    (group (.lookahead false) (sequence [literal ['a'] false, repetition (set .any) 0 0 .greedy,
      group .plain (sequence [literal ['b'] false, backref (.index 1) .zero])])).simplify =
      group (.lookahead false) (sequence [literal ['a', 'b'] false, backref (.index 1) .zero]) := by
  decide

end Exemplar.Regex
