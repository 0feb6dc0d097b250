import Exemplar.Proofs.Regex.Marks
import Exemplar.Proofs.Regex.Possible

/-!
# Trees without the extents of their references

The extent of a reference is not written in a pattern: it is that of the group when the pattern is
read. `tree.bare` is the tree without these extents. Apart from the extents of the tree, nothing
depends on them: rewriting a tree, its summaries and whether it is possible. A tree `Narrows`
another one when it is the same tree with narrower references.
-/

namespace Exemplar.Regex

mutual
/-- The tree without the extents of its references. -/
def bare : Regex → Regex
  | sequence parts => sequence (bareAll parts)
  | choice options => choice (bareAll options)
  | repetition body least most mode => repetition (bare body) least most mode
  | group kind body => group kind (bare body)
  | backref id _ => backref id .zero
  | tree => tree

/-- Several trees without the extents of their references. -/
def bareAll : List Regex → List Regex
  | [] => []
  | tree :: trees => bare tree :: bareAll trees
end

/-- Several bare trees are those of each. -/
@[simp] theorem bareAll_eq_map (trees : List Regex) : bareAll trees = trees.map bare := by
  induction trees with
  | nil => rfl
  | cons tree trees ih => rw [bareAll, ih, List.map_cons]

/-- A bare sequence. -/
theorem bare_sequence (parts : List Regex) : (sequence parts).bare = sequence (parts.map bare) := by
  rw [bare, bareAll_eq_map]

/-- A bare choice. -/
theorem bare_choice (options : List Regex) : (choice options).bare = choice (options.map bare) := by
  rw [bare, bareAll_eq_map]

/-- Bare parts in a row. -/
theorem bare_inSequence (parts : List Regex) :
    (inSequence parts).bare = inSequence (parts.map bare) := by
  cases parts with
  | nil => rfl
  | cons part parts => exact bare_sequence _

/-- One of several bare options. -/
theorem bare_anyOf (options : List Regex) : (anyOf options).bare = anyOf (options.map bare) := by
  cases options with
  | nil => rfl
  | cons option options => exact bare_choice _

/-- The extents of references do not matter to a summary. -/
theorem summarize_bare {α : Type} (summary : Summary α) (tree : Regex) :
    tree.bare.summarize summary = tree.summarize summary := by
  have hlist (trees : List Regex)
      (ih : ∀ tree ∈ trees, tree.bare.summarize summary = tree.summarize summary) :
      (trees.map bare).map (summarize summary) = trees.map (summarize summary) := by
    rw [List.map_map]
    exact List.map_congr_left ih
  induction tree with
  | empty => rfl
  | literal text ignoreCase => rfl
  | set members => rfl
  | sequence parts ih =>
    rw [bare_sequence, summarize, summarize, summarizeAll_eq_map, summarizeAll_eq_map,
      hlist parts ih]
  | choice options ih =>
    rw [bare_choice, summarize, summarize, summarizeAll_eq_map, summarizeAll_eq_map,
      hlist options ih]
  | repetition body least most mode ih => rw [bare, summarize, summarize, ih]
  | group kind body ih => rw [bare, summarize, summarize, ih]
  | backref id extent => rfl

/-- Trees that are the same but for their references have the same summaries. -/
theorem summarize_eq_of_bare {α : Type} (summary : Summary α) {tree other : Regex}
    (h : tree.bare = other.bare) : tree.summarize summary = other.summarize summary := by
  rw [← summarize_bare, h, summarize_bare]

/-- The extents of references do not matter to what is possible. -/
theorem possible_bare {tree : Regex} : tree.bare.Possible ↔ tree.Possible := by
  have hlist {trees : List Regex} (ih : ∀ tree ∈ trees,
      (tree.bare.Possible ↔ tree.Possible)) :
      trees.map bare ≠ [] ∧ (∀ tree ∈ trees.map bare, tree.Possible) ↔
        trees ≠ [] ∧ ∀ tree ∈ trees, tree.Possible := by
    rw [List.forall_mem_map, forall₂_congr ih, Ne, List.map_eq_nil_iff]
  induction tree with
  | empty => exact .rfl
  | literal text ignoreCase => exact .rfl
  | set members => exact .rfl
  | sequence parts ih => rw [bare_sequence, possible_sequence, possible_sequence, hlist ih]
  | choice options ih => rw [bare_choice, possible_choice, possible_choice, hlist ih]
  | repetition body least most mode ih => exact and_congr_right fun _ ↦ ih
  | group kind body ih => exact imp_congr_right fun _ ↦ ih
  | backref id extent => exact .rfl

/-- A tree that is a literal but for its references is the literal. -/
theorem eq_literal_of_bare {tree : Regex} {text : List Char} {ignoreCase : Bool}
    (h : tree.bare = (literal text ignoreCase).bare) : tree = literal text ignoreCase := by
  cases tree <;> cases h
  rfl

/-- A tree without references is bare. -/
theorem bare_eq_self {tree : Regex} (h : tree.referenceIds = []) : tree.bare = tree := by
  have hlist {trees : List Regex} (h : trees.flatMap referenceIds = [])
      (ih : ∀ tree ∈ trees, tree.referenceIds = [] → tree.bare = tree) :
        trees.map bare = trees := by
    conv_rhs => rw [← List.map_id trees]
    exact List.map_congr_left fun tree htree ↦
      ih tree htree (List.flatMap_eq_nil_iff.1 h tree htree)
  induction tree with
  | empty => rfl
  | literal text ignoreCase => rfl
  | set members => rfl
  | sequence parts ih => rw [bare_sequence, hlist (referenceIds_sequence parts ▸ h) ih]
  | choice options ih => rw [bare_choice, hlist (referenceIds_choice options ▸ h) ih]
  | repetition body least most mode ih => rw [bare, ih h]
  | group kind body ih => rw [bare, ih (referenceIds_group kind body ▸ h)]
  | backref id extent => cases h

/-- A tree that is the same as a tree without references but for its references is that tree. -/
theorem eq_of_bare {tree other : Regex} (heq : tree.bare = other.bare)
    (h : other.referenceIds = []) :
    tree = other := by
  have hmarks : tree.marks = other.marks := summarize_eq_of_bare Mark.summary heq
  have hids : tree.referenceIds = [] := by rw [referenceIds, hmarks, ← referenceIds, h]
  rw [← bare_eq_self hids, heq, bare_eq_self h]

/-! ## Normal forms -/

/-- Putting a bare tree in front of bare parts. -/
theorem prepend_bare (tree : Regex) (rest : List Regex) :
    prepend tree.bare (rest.map bare) = (prepend tree rest).map bare := by
  induction tree generalizing rest with
  | empty => rfl
  | sequence parts ih =>
    rw [bare_sequence, prepend, prepend, prependAll_eq_foldr, prependAll_eq_foldr]
    induction parts with
    | nil => rfl
    | cons part parts ihparts =>
      rw [List.map_cons, List.foldr_cons, List.foldr_cons,
        ihparts fun other hother ↦ ih other (List.mem_cons_of_mem _ hother), ih part (by simp)]
  | literal text ignoreCase =>
    cases rest with
    | nil => rfl
    | cons head rest =>
      cases head with
      | literal next ignoreCase' =>
        show prepend (literal text ignoreCase) (literal next ignoreCase' :: rest.map bare) = _
        rw [prepend, prepend]
        split <;> rfl
      | empty => rfl
      | set members => rfl
      | sequence parts => rfl
      | choice options => rfl
      | repetition body least most mode => rfl
      | group kind body => rfl
      | backref id extent => rfl
  | set members => rfl
  | choice options ih => rfl
  | repetition body least most mode ih => rfl
  | group kind body ih => rfl
  | backref id extent => rfl

/-- Joined bare parts. -/
theorem bare_joinParts (parts : List Regex) :
    (joinParts parts).bare = joinParts (parts.map bare) := by
  match parts with
  | [] => rfl
  | [part] => rfl
  | first :: second :: rest => exact bare_inSequence _

/-- Joined bare options. -/
theorem bare_joinOptions (options : List Regex) :
    (joinOptions options).bare = joinOptions (options.map bare) := by
  match options with
  | [] => rfl
  | [option] => rfl
  | first :: second :: rest => exact bare_anyOf _

/-- The options that a bare tree contributes. -/
theorem asOptions_bare (tree : Regex) : asOptions tree.bare = (asOptions tree).map bare := by
  cases tree with
  | choice options => rw [bare_choice]; rfl
  | empty => rfl
  | literal text ignoreCase => rfl
  | set members => rfl
  | sequence parts => rfl
  | repetition body least most mode => rfl
  | group kind body => rfl
  | backref id extent => rfl

/-- Joined bare copies. -/
theorem bare_joinCopies (body : Regex) (least : Nat) (most : Bound) (mode : RepetitionMode) :
    (joinCopies body least most mode).bare = joinCopies body.bare least most mode := by
  have hempty : body.bare = empty ↔ body = empty := by
    cases body <;> simp [bare]
  unfold joinCopies
  simp only [hempty]
  split
  · rfl
  · split <;> rfl

/-- A bare tree has the bare normal form. -/
theorem simplify_bare (tree : Regex) : tree.bare.simplify = tree.simplify.bare := by
  have hlist (trees : List Regex) (ih : ∀ tree ∈ trees,
      tree.bare.simplify = tree.simplify.bare) :
      (trees.map bare).map simplify = (trees.map simplify).map bare := by
    rw [List.map_map, List.map_map]
    exact List.map_congr_left ih
  induction tree with
  | empty => rfl
  | literal text ignoreCase => rfl
  | set members => rfl
  | sequence parts ih =>
    have hprepend := prepend_bare (sequence (parts.map simplify)) []
    rw [bare_sequence, prepend, prepend] at hprepend
    rw [bare_sequence, simplify, simplify, simplifyAll_eq_map, simplifyAll_eq_map, hlist parts ih,
      bare_joinParts, ← hprepend]
    rfl
  | choice options ih =>
    have hoptions (trees : List Regex) :
        (trees.map bare).flatMap asOptions = (trees.flatMap asOptions).map bare := by
      rw [List.flatMap_map, List.map_flatMap]
      exact congrArg List.flatten (List.map_congr_left fun tree _ ↦ asOptions_bare tree)
    rw [bare_choice, simplify, simplify, simplifyAll_eq_map, simplifyAll_eq_map, hlist options ih,
      hoptions, bare_joinOptions]
  | repetition body least most mode ih => rw [bare, simplify, simplify, ih, bare_joinCopies]
  | group kind body ih =>
    cases kind with
    | plain => exact ih
    | capturing number name => exact congrArg (group _) ih
    | atomic => exact congrArg (group _) ih
    | lookahead negated => exact congrArg (group _) ih
    | lookbehind negated => exact congrArg (group _) ih
  | backref id extent => rfl

/-! ## Narrower references -/

/-- The tree is the other one with narrower references, so its extent is narrower too. -/
structure Narrows (tree other : Regex) : Prop where
  bare_eq : tree.bare = other.bare
  within : tree.extent.Within other.extent

namespace Narrows

variable {tree other body body' : Regex} {trees others : List Regex}

/-- A tree has no narrower references than itself. -/
theorem refl (tree : Regex) : tree.Narrows tree :=
  ⟨rfl, .refl _⟩

/-- Lists of trees with narrower references are the same but for their references. -/
theorem map_bare_eq (h : List.Forall₂ Narrows trees others) :
    trees.map bare = others.map bare := by
  induction h with
  | nil => rfl
  | cons hhead htail ih => rw [List.map_cons, List.map_cons, hhead.bare_eq, ih]

/-- Parts in a row with narrower references. -/
theorem inSequence (h : List.Forall₂ Narrows trees others) :
    (inSequence trees).Narrows (inSequence others) := by
  refine ⟨by rw [bare_inSequence, bare_inSequence, map_bare_eq h], ?_⟩
  rw [extent_inSequence, extent_inSequence]
  induction h with
  | nil => exact .refl _
  | cons hhead htail ih => exact hhead.within.followedBy ih

/-- Options with narrower references. -/
theorem joinOptions (h : List.Forall₂ Narrows trees others) :
    (joinOptions trees).Narrows (joinOptions others) := by
  refine ⟨by rw [bare_joinOptions, bare_joinOptions, map_bare_eq h], ?_⟩
  rw [extent_joinOptions, extent_joinOptions]
  induction h with
  | nil => exact .refl _
  | cons hhead htail ih =>
    cases htail with
    | nil => exact hhead.within
    | cons hnext hrest => exact hhead.within.either ih

/-- Branches with narrower references. -/
theorem ofRows {rows rows' : List (List Regex)}
    (h : List.Forall₂ (List.Forall₂ Narrows) rows rows') :
    (ofRows rows).Narrows (ofRows rows') :=
  joinOptions
    (List.forall₂_map_left_iff.2 (List.forall₂_map_right_iff.2 (h.imp fun _ _ ↦ inSequence)))

/-- Copies of a body with narrower references. -/
theorem repetition (h : body.Narrows body') (least : Nat) (most : Bound) (mode : RepetitionMode) :
    (repetition body least most mode).Narrows (repetition body' least most mode) :=
  ⟨by rw [bare, bare, h.bare_eq], h.within.repeated least most⟩

/-- A group around a body with narrower references. -/
theorem group (h : body.Narrows body') (kind : GroupKind) :
    (group kind body).Narrows (group kind body') := by
  refine ⟨by rw [bare, bare, h.bare_eq], ?_⟩
  rw [extent, extent]
  split
  · exact .refl _
  · exact h.within

end Narrows

end Exemplar.Regex
