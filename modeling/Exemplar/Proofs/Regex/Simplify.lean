import Exemplar.Proofs.Emission.Basic
import Exemplar.Proofs.Length.Extent
import Exemplar.Proofs.Regex.Everywhere
import Exemplar.Regex.Simplify

/-!
# Simplification changes nothing but the shape

A well-formed tree and its normal form have the same extent (`extent_simplify`), also where lengths
are cut off, and they emit the same texts with the same captures (`emits_simplify`). Each step of
simplification is matched by a law: flattening by associativity, dropping empty parts by neutrality,
and merging literals by the text and the length of a joined text. What is stable under rewriting
holds of the normal form when it holds of the tree (`Stable.simplify`).
-/

namespace Exemplar.Regex

/-- Several trees are put in front of a row one after the other. -/
theorem prependAll_eq_foldr (trees rest : List Regex) :
    prependAll trees rest = trees.foldr prepend rest := by
  induction trees with
  | nil => rfl
  | cons tree trees ih => rw [prependAll, ih, List.foldr_cons]

/-- Putting a literal in front of a row either joins it to a literal or puts it there. -/
theorem prepend_literal_eq (text : List Char) (ignoreCase : Bool) (rest : List Regex) :
    (∃ next rest', rest = literal next ignoreCase :: rest' ∧
      prepend (literal text ignoreCase) rest = literal (text ++ next) ignoreCase :: rest') ∨
    prepend (literal text ignoreCase) rest = literal text ignoreCase :: rest := by
  cases rest with
  | nil => exact .inr rfl
  | cons head rest =>
    cases head with
    | literal next ignoreCase' =>
      by_cases hcase : ignoreCase = ignoreCase'
      · subst hcase
        exact .inl ⟨next, rest, rfl, by rw [prepend, if_pos rfl]⟩
      · exact .inr (by rw [prepend, if_neg hcase])
    | empty => exact .inr rfl
    | set members => exact .inr rfl
    | sequence parts => exact .inr rfl
    | choice options => exact .inr rfl
    | repetition body least most mode => exact .inr rfl
    | group kind body => exact .inr rfl
    | backref id extent => exact .inr rfl

/-- The options that several trees contribute are some if there are trees and each contributes
some. -/
theorem flatMap_asOptions_ne_nil {trees : List Regex} (h : trees ≠ [])
    (hwell : ∀ tree ∈ trees, tree.WellFormed) : trees.flatMap asOptions ≠ [] := by
  cases trees with
  | nil => exact absurd rfl h
  | cons tree trees =>
    have hwell := hwell tree (by simp)
    cases tree <;> simp_all [asOptions]

/-! ## Extents -/

/-- Putting a tree in front of parts in a row adds its extent. -/
theorem inSequence_prepend (tree : Regex) (rest : List Regex) :
    Extent.inSequence ((prepend tree rest).map extent) =
      tree.extent.followedBy (Extent.inSequence (rest.map extent)) := by
  induction tree generalizing rest with
  | empty => exact (Extent.zero_followedBy _).symm
  | sequence parts ih =>
    rw [prepend, prependAll_eq_foldr, extent, extents_eq_map]
    induction parts with
    | nil => exact (Extent.zero_followedBy _).symm
    | cons head parts ihparts =>
      rw [List.foldr_cons, ih head (by simp), List.map_cons, Extent.inSequence,
        Extent.followedBy_assoc,
        ihparts fun part hpart ↦ ih part (List.mem_cons_of_mem _ hpart)]
  | literal text ignoreCase =>
    rcases prepend_literal_eq text ignoreCase rest with ⟨next, rest', rfl, heq⟩ | heq
    · rw [heq, List.map_cons, List.map_cons, Extent.inSequence, Extent.inSequence, extent, extent,
        extent, ← Extent.followedBy_assoc, ← Extent.ofLength_add, List.length_append]
    · rw [heq, List.map_cons, Extent.inSequence]
  | set members => rfl
  | choice options ih => rfl
  | repetition body least most mode ih => rfl
  | group kind body ih => rfl
  | backref id extent => rfl

/-- The tree of parts in a row has the extent of the parts in a row. -/
theorem extent_inSequence (parts : List Regex) :
    (inSequence parts).extent = Extent.inSequence (parts.map extent) := by
  cases parts with
  | nil => rfl
  | cons part parts =>
    show (sequence (part :: parts)).extent = _
    rw [extent, extents_eq_map]

/-- The tree of options has the extent of any of the options. -/
theorem extent_anyOf (options : List Regex) :
    (anyOf options).extent = Extent.anyOf (options.map extent) := by
  cases options with
  | nil => rfl
  | cons option options =>
    show (choice (option :: options)).extent = _
    rw [extent, extents_eq_map]

/-- Joined parts have the extent of the parts in a row. -/
theorem extent_joinParts (parts : List Regex) :
    (joinParts parts).extent = Extent.inSequence (parts.map extent) := by
  unfold joinParts
  split
  · exact (Extent.followedBy_zero _).symm
  · exact extent_inSequence _

/-- Joined options have the extent of any of the options. -/
theorem extent_joinOptions (options : List Regex) :
    (joinOptions options).extent = Extent.anyOf (options.map extent) := by
  unfold joinOptions
  split
  · rfl
  · exact extent_anyOf _

/-- The options that several well-formed trees contribute have the extent of any of the trees. -/
theorem anyOf_flatMap_asOptions {trees : List Regex} (h : ∀ tree ∈ trees, tree.WellFormed) :
    Extent.anyOf ((trees.flatMap asOptions).map extent) = Extent.anyOf (trees.map extent) := by
  have hoptions (tree : Regex) : Extent.anyOf ((asOptions tree).map extent) = tree.extent := by
    unfold asOptions
    split
    · rw [extent, extents_eq_map]
    · rfl
  induction trees with
  | nil => rfl
  | cons tree trees ih =>
    have htree : [tree].flatMap asOptions ≠ [] :=
      flatMap_asOptions_ne_nil (by simp) fun other hother ↦
        h other (by simp_all)
    have htrees : ∀ other ∈ trees, other.WellFormed := fun other hother ↦
      h other (List.mem_cons_of_mem _ hother)
    cases trees with
    | nil =>
      rw [List.flatMap_cons, List.flatMap_nil, List.append_nil]
      exact hoptions tree
    | cons next trees =>
      rw [List.flatMap_cons, List.map_append,
        Extent.anyOf_append (by simpa using htree)
          (by simpa using flatMap_asOptions_ne_nil (List.cons_ne_nil next trees) htrees),
        hoptions, ih htrees, List.map_cons (a := tree), Extent.anyOf_cons _ (by simp)]

/-- Joined copies have the extent of the repetition. -/
theorem extent_joinCopies {body : Regex} {least : Nat} {most : Bound} (h : most.Allows least)
    (mode : RepetitionMode) :
    (joinCopies body least most mode).extent = body.extent.repeated least most := by
  unfold joinCopies
  split
  · rename_i hempty
    rcases hempty with rfl | rfl
    · have hleast : least = 0 := Nat.le_zero.1 h
      subst hleast
      exact (Extent.repeated_zero _).symm
    · exact (Extent.zero_repeated _ _).symm
  · split
    · rename_i hone
      obtain ⟨rfl, rfl⟩ := hone
      exact (Extent.repeated_one _).symm
    · rw [repeated, Bound.raise_of_allows h, extent]

/-! ## Stable properties -/

section Parts

variable {good : Regex → Prop}
  (hparts : ∀ parts, good (sequence parts) → ∀ part ∈ parts, good part)
  (hjoin : ∀ left right ignoreCase, good (literal left ignoreCase) →
    good (literal right ignoreCase) → good (literal (left ++ right) ignoreCase))

include hparts hjoin

/-- The parts of a row are good when a good tree is put in front of good parts. -/
theorem forall_mem_prepend {tree : Regex} (h : good tree) {rest : List Regex}
    (hrest : ∀ part ∈ rest, good part) : ∀ part ∈ prepend tree rest, good part := by
  induction tree generalizing rest with
  | empty => exact hrest
  | sequence parts ih =>
    have hgood := hparts parts h
    rw [prepend, prependAll_eq_foldr]
    clear h
    induction parts with
    | nil => exact hrest
    | cons head parts ihparts =>
      refine ih head (by simp) (hgood head (by simp)) (ihparts ?_ ?_)
      · exact fun part hpart ↦ ih part (List.mem_cons_of_mem _ hpart)
      · exact fun part hpart ↦ hgood part (List.mem_cons_of_mem _ hpart)
  | literal text ignoreCase =>
    rcases prepend_literal_eq text ignoreCase rest with ⟨next, rest', rfl, heq⟩ | heq
    · have hnext := hrest _ List.mem_cons_self
      rw [heq]
      refine List.forall_mem_cons.2 ⟨hjoin _ _ _ h hnext, ?_⟩
      exact fun part hpart ↦ hrest part (List.mem_cons_of_mem _ hpart)
    · rw [heq]
      exact List.forall_mem_cons.2 ⟨h, hrest⟩
  | set members => exact List.forall_mem_cons.2 ⟨h, hrest⟩
  | choice options ih => exact List.forall_mem_cons.2 ⟨h, hrest⟩
  | repetition body least most mode ih => exact List.forall_mem_cons.2 ⟨h, hrest⟩
  | group kind body ih => exact List.forall_mem_cons.2 ⟨h, hrest⟩
  | backref id extent => exact List.forall_mem_cons.2 ⟨h, hrest⟩

/-- The parts of a row are good when good trees are put there. -/
theorem forall_mem_prependAll {trees : List Regex} (h : ∀ tree ∈ trees, good tree) :
    ∀ part ∈ prependAll trees [], good part := by
  induction trees with
  | nil => simp [prependAll]
  | cons tree trees ih =>
    obtain ⟨htree, htrees⟩ := List.forall_mem_cons.1 h
    exact forall_mem_prepend hparts hjoin htree (ih htrees)

end Parts

/-- The options that good trees contribute are good. -/
theorem forall_mem_asOptions {good : Regex → Prop}
    (hoptions : ∀ options, good (choice options) → ∀ option ∈ options, good option)
    {trees : List Regex} (h : ∀ tree ∈ trees, good tree) :
    ∀ option ∈ trees.flatMap asOptions, good option := by
  intro option hoption
  obtain ⟨tree, htree, hoption⟩ := List.mem_flatMap.1 hoption
  have htree := h tree htree
  unfold asOptions at hoption
  split at hoption
  · exact hoptions _ htree option hoption
  · rwa [List.mem_singleton.1 hoption]

variable {property : Regex → Prop}

/-- What holds of joined texts holds everywhere in the parts of a row when it does in the trees that
are put there. -/
theorem Everywhere.prependAll
    (hjoin : ∀ left right ignoreCase, property (literal left ignoreCase) →
      property (literal right ignoreCase) → property (literal (left ++ right) ignoreCase))
    {trees : List Regex} (h : ∀ tree ∈ trees, tree.Everywhere property) :
    ∀ part ∈ prependAll trees [], part.Everywhere property :=
  forall_mem_prependAll (fun _ h ↦ (everywhere_sequence.1 h).2) hjoin h

/-- What holds everywhere in trees holds everywhere in the options that they contribute. -/
theorem Everywhere.asOptions {trees : List Regex}
    (h : ∀ tree ∈ trees, tree.Everywhere property) :
    ∀ option ∈ trees.flatMap asOptions, option.Everywhere property :=
  forall_mem_asOptions (fun _ h ↦ (everywhere_choice.1 h).2) h

/-- A stable property survives when trees are joined to one sequence. -/
theorem Stable.joinParts (hstable : Stable property) {trees : List Regex}
    (h : ∀ tree ∈ trees, tree.Everywhere property) :
    (joinParts (prependAll trees [])).Everywhere property := by
  have hparts := Everywhere.prependAll (fun _ _ _ ↦ hstable.literal) h
  unfold Regex.joinParts
  split
  · rename_i part heq
    exact hparts part (by simp [heq])
  · exact hstable.inSequence hparts

/-- A stable property survives when the options of trees are joined to one choice. -/
theorem Stable.joinOptions (hstable : Stable property) {trees : List Regex}
    (h : ∀ tree ∈ trees, tree.Everywhere property) :
    (joinOptions (trees.flatMap asOptions)).Everywhere property := by
  have hoptions := Everywhere.asOptions h
  unfold Regex.joinOptions
  split
  · rename_i option heq
    exact hoptions option (by simp [heq])
  · exact hstable.anyOf hoptions

/-- A stable property survives when copies are joined. -/
theorem Stable.joinCopies (hstable : Stable property) {body body' : Regex} {least : Nat}
    {most : Bound} {mode : RepetitionMode} (h : property (Regex.repetition body least most mode))
    (hbody : body'.Everywhere property) :
    (joinCopies body' least most mode).Everywhere property := by
  unfold Regex.joinCopies
  split
  · exact hstable.empty
  · split
    · exact hbody
    · exact hstable.repeated h hbody

/-- A stable property survives simplification, which keeps the extent. The two go together: a stable
property of a group depends on the extent of its body, and the extent of a choice is kept because
the property gives each choice an option. -/
theorem Stable.simplify (hstable : Stable property) {tree : Regex} (h : tree.Everywhere property) :
    tree.simplify.Everywhere property ∧ tree.simplify.extent = tree.extent := by
  induction tree with
  | empty => exact ⟨h, rfl⟩
  | literal text ignoreCase => exact ⟨h, rfl⟩
  | set members => exact ⟨h, rfl⟩
  | sequence parts ih =>
    rw [everywhere_sequence] at h
    have hparts : ∀ part ∈ parts.map Regex.simplify, part.Everywhere property := by
      simpa using fun part hpart ↦ (ih part hpart (h.2 part hpart)).1
    have hmap : (parts.map Regex.simplify).map extent = parts.map extent := by
      rw [List.map_map]
      exact List.map_congr_left fun part hpart ↦ (ih part hpart (h.2 part hpart)).2
    have hprepend := inSequence_prepend (Regex.sequence (parts.map Regex.simplify)) []
    rw [Regex.prepend, extent, extents_eq_map, hmap, List.map_nil] at hprepend
    rw [Regex.simplify, simplifyAll_eq_map]
    refine ⟨hstable.joinParts hparts, ?_⟩
    rw [extent_joinParts, hprepend, extent, extents_eq_map]
    exact Extent.followedBy_zero _
  | choice options ih =>
    rw [everywhere_choice] at h
    have hoptions : ∀ option ∈ options.map Regex.simplify, option.Everywhere property := by
      simpa using fun option hoption ↦ (ih option hoption (h.2 option hoption)).1
    have hmap : (options.map Regex.simplify).map extent = options.map extent := by
      rw [List.map_map]
      exact List.map_congr_left fun option hoption ↦ (ih option hoption (h.2 option hoption)).2
    have hextent := anyOf_flatMap_asOptions fun option hoption ↦
      hstable.wellFormed (hoptions option hoption)
    rw [Regex.simplify, simplifyAll_eq_map]
    refine ⟨hstable.joinOptions hoptions, ?_⟩
    rw [extent_joinOptions, hextent, hmap, extent, extents_eq_map]
  | repetition body least most mode ih =>
    rw [everywhere_repetition] at h
    obtain ⟨hbody, hextent⟩ := ih h.2
    rw [Regex.simplify]
    refine ⟨hstable.joinCopies h.1 hbody, ?_⟩
    rw [extent_joinCopies (hstable.isBuilt h.1).1, hextent, extent]
  | group kind body ih =>
    rw [everywhere_group] at h
    obtain ⟨hbody, hextent⟩ := ih h.2
    have hgroup : property (Regex.group kind body.simplify) :=
      hstable.group h.1 (hextent ▸ .refl _)
    cases kind with
    | plain => exact ⟨hbody, hextent⟩
    | capturing number name => exact ⟨everywhere_group.2 ⟨hgroup, hbody⟩, hextent⟩
    | atomic => exact ⟨everywhere_group.2 ⟨hgroup, hbody⟩, hextent⟩
    | lookahead negated => exact ⟨everywhere_group.2 ⟨hgroup, hbody⟩, rfl⟩
    | lookbehind negated => exact ⟨everywhere_group.2 ⟨hgroup, hbody⟩, rfl⟩
  | backref id extent => exact ⟨h, rfl⟩

/-- The normal form of a well-formed tree is well-formed. -/
theorem WellFormed.simplify {tree : Regex} (h : tree.WellFormed) : tree.simplify.WellFormed :=
  (stable_isBuilt.simplify h).1

/-- A well-formed tree and its normal form have the same extent. -/
theorem extent_simplify {tree : Regex} (h : tree.WellFormed) :
    tree.simplify.extent = tree.extent :=
  (stable_isBuilt.simplify h).2

/-! ## Emissions -/

/-- Putting a tree in front of parts in a row emits the tree first. -/
theorem emitsAll_prepend (tree : Regex) (rest : List Regex) :
    EmitsAll (prepend tree rest) = tree.Emits.andThen (EmitsAll rest) := by
  induction tree generalizing rest with
  | empty => exact (Emission.ofText_nil_andThen _).symm
  | sequence parts ih =>
    rw [prepend, prependAll_eq_foldr, Emits]
    induction parts with
    | nil => exact (Emission.ofText_nil_andThen _).symm
    | cons head parts ihparts =>
      rw [List.foldr_cons, ih head (by simp), EmitsAll, Emission.andThen_assoc,
        ihparts fun part hpart ↦ ih part (List.mem_cons_of_mem _ hpart)]
  | literal text ignoreCase =>
    rcases prepend_literal_eq text ignoreCase rest with ⟨next, rest', rfl, heq⟩ | heq
    · rw [heq, EmitsAll, EmitsAll, Emits, Emits, Emits, ← Emission.andThen_assoc,
        Emission.ofText_andThen_ofText]
    · rw [heq, EmitsAll]
  | set members => rfl
  | choice options ih => rfl
  | repetition body least most mode ih => rfl
  | group kind body ih => rfl
  | backref id extent => rfl

/-- Putting several trees in front of parts in a row emits the trees first. -/
theorem emitsAll_prependAll (trees rest : List Regex) :
    EmitsAll (prependAll trees rest) = (EmitsAll trees).andThen (EmitsAll rest) :=
  emitsAll_prepend (sequence trees) rest

/-- Joined parts emit what the parts emit in a row. -/
theorem emits_joinParts (parts : List Regex) : (joinParts parts).Emits = EmitsAll parts := by
  unfold joinParts
  split
  · exact (Emission.andThen_ofText_nil _).symm
  · exact emits_inSequence _

/-- Joined options emit what any of the options emits. -/
theorem emits_joinOptions {options : List Regex} (h : options ≠ []) :
    (joinOptions options).Emits = EmitsAny options := by
  unfold joinOptions
  split
  · funext before text after
    simp [EmitsAny]
  · exact emits_anyOf h

/-- The options that several trees contribute emit what any of the trees emits. -/
theorem emitsAny_flatMap_asOptions (trees : List Regex) :
    EmitsAny (trees.flatMap asOptions) = EmitsAny trees := by
  have hoptions (tree : Regex) (before text after) :
      EmitsAny (asOptions tree) before text after ↔ tree.Emits before text after := by
    unfold asOptions
    split
    · rfl
    · simp [EmitsAny]
  funext before text after
  refine propext ?_
  simp only [emitsAny_iff, List.mem_flatMap] at hoptions ⊢
  constructor
  · rintro ⟨option, ⟨tree, htree, hoption⟩, hemits⟩
    exact ⟨tree, htree, (hoptions tree _ _ _).1 ⟨option, hoption, hemits⟩⟩
  · rintro ⟨tree, htree, hemits⟩
    obtain ⟨option, hoption, hemits⟩ := (hoptions tree _ _ _).2 hemits
    exact ⟨option, ⟨tree, htree, hoption⟩, hemits⟩

/-- Copies of nothing are nothing. -/
theorem copies_ofText_nil (count : Nat) : (Emission.ofText []).copies count = .ofText [] := by
  induction count with
  | zero => rfl
  | succ count ih => rw [Emission.copies, ih, Emission.ofText_nil_andThen]

/-- Joined copies emit what the repetition emits. -/
theorem emits_joinCopies {body : Regex} {least : Nat} {most : Bound} (h : most.Allows least)
    (mode : RepetitionMode) :
    (joinCopies body least most mode).Emits = (repetition body least most mode).Emits := by
  funext before text after
  refine propext ?_
  unfold joinCopies
  split
  · -- Of an empty body, or of no copies, nothing is emitted on either side.
    rename_i hempty
    constructor
    · rintro hnothing
      rcases hempty with rfl | rfl
      · have hleast : least = 0 := Nat.le_zero.1 h
        exact ⟨0, Nat.le_of_eq hleast, Bound.allows_zero _, hnothing⟩
      · exact ⟨least, Nat.le_refl _, h, copies_ofText_nil least ▸ hnothing⟩
    · rintro ⟨count, hleast, hmost, hcopies⟩
      rcases hempty with rfl | rfl
      · have hcount : count = 0 := Nat.le_zero.1 hmost
        subst hcount
        exact hcopies
      · rw [Emits, copies_ofText_nil] at hcopies
        exact hcopies
  · split
    · -- One copy is the body itself.
      rename_i hone
      obtain ⟨rfl, rfl⟩ := hone
      constructor
      · intro hbody
        exact ⟨1, Nat.le_refl _, Nat.le_refl _, (Emission.copies_one _).symm ▸ hbody⟩
      · rintro ⟨count, hleast, hmost, hcopies⟩
        have hmost : count ≤ 1 := hmost
        have hcount : count = 1 := by omega
        rwa [hcount, Emission.copies_one] at hcopies
    · rw [repeated, Bound.raise_of_allows h]

/-- A repetition emits the same when its body emits the same. -/
theorem emits_repetition_congr {body body' : Regex} (h : body.Emits = body'.Emits) (least : Nat)
    (most : Bound) (mode : RepetitionMode) :
    (repetition body least most mode).Emits = (repetition body' least most mode).Emits := by
  rw [Emits, Emits, h]

/-- A well-formed tree and its normal form emit the same texts with the same captures. -/
theorem emits_simplify {tree : Regex} (h : tree.WellFormed) : tree.simplify.Emits = tree.Emits := by
  induction tree with
  | empty => rfl
  | literal text ignoreCase => rfl
  | set members => rfl
  | sequence parts ih =>
    rw [wellFormed_sequence] at h
    rw [simplify, simplifyAll_eq_map, emits_joinParts, emitsAll_prependAll, EmitsAll,
      Emission.andThen_ofText_nil, Emits]
    induction parts with
    | nil => rfl
    | cons part parts ihparts =>
      rw [List.map_cons, EmitsAll, EmitsAll, ih part (by simp) (h part (by simp)),
        ihparts (fun other hother ↦ ih other (List.mem_cons_of_mem _ hother))
          fun other hother ↦ h other (List.mem_cons_of_mem _ hother)]
  | choice options ih =>
    rw [wellFormed_choice] at h
    have hsimple : ∀ option ∈ options.map simplify, option.WellFormed := by
      simpa using fun option hoption ↦ (h.2 option hoption).simplify
    rw [simplify, simplifyAll_eq_map,
      emits_joinOptions (flatMap_asOptions_ne_nil (by simpa using h.1) hsimple),
      emitsAny_flatMap_asOptions, Emits]
    funext before text after
    refine propext ?_
    simp only [emitsAny_iff, List.mem_map]
    constructor
    · rintro ⟨_, ⟨option, hoption, rfl⟩, hemits⟩
      exact ⟨option, hoption, ih option hoption (h.2 option hoption) ▸ hemits⟩
    · rintro ⟨option, hoption, hemits⟩
      exact ⟨_, ⟨option, hoption, rfl⟩,
        (ih option hoption (h.2 option hoption)).symm ▸ hemits⟩
  | repetition body least most mode ih =>
    rw [wellFormed_repetition] at h
    rw [simplify, emits_joinCopies h.1.1, emits_repetition_congr (ih h.2)]
  | group kind body ih =>
    rw [wellFormed_group] at h
    cases kind with
    | plain => exact ih h
    | capturing number name => rw [simplify, Emits, Emits, ih h]; simp
    | atomic => exact ih h
    | lookahead negated => rfl
    | lookbehind negated => rfl
  | backref id extent => rfl

/-- Simplification changes nothing that can be seen of the strings of a tree: from every captures
the normal form emits the same texts with the same captures behind them, and its least length and
its bound are the same, also where they are cut off. -/
theorem simplify_preserves {tree : Regex} (h : tree.WellFormed) :
    (∀ before text after,
      tree.simplify.Emits before text after ↔ tree.Emits before text after) ∧
      tree.simplify.minLength = tree.minLength ∧ tree.simplify.maxLength = tree.maxLength := by
  have hextent := extent_simplify h
  refine ⟨fun before text after ↦ ?_, ?_, ?_⟩
  · rw [emits_simplify h]
  · rw [minLength, minLength, hextent]
  · rw [maxLength, maxLength, hextent]

/-- A tree with parts that simplification removes, and with copies of a text whose bound is no
size. -/
def tangled : Regex :=
  inSequence
    [ofText ['a'] false,
     inSequence [ofText [] true, ofText ['b'] false, repeated (set .any) 0 0 .reluctant],
     repeated (group (.capturing 1 none)
       (anyOf [set .any, group .plain (anyOf [ofText ['c'] false, empty])])) 1 1 .greedy,
     repeated (backref (.index 1) (.between 0 (.ofExact Size.largest))) 2 (.ofExact 3) .greedy]

/-- The tangled tree is simplified without a change of its texts, its captures and its lengths. -/
theorem simplify_tangled : tangled.WellFormed ∧
    tangled.simplify =
      sequence
        [literal ['a', 'b'] false,
         group (.capturing 1 none) (choice [set .any, literal ['c'] false, empty]),
         repetition (backref (.index 1) (.between 0 (.ofExact Size.largest))) 2
           (.ofExact 3) .greedy] ∧
    (∀ before text after,
      tangled.simplify.Emits before text after ↔ tangled.Emits before text after) ∧
    tangled.simplify.minLength = tangled.minLength ∧
    tangled.simplify.maxLength = tangled.maxLength := by
  have hwell : tangled.WellFormed := by
    simp [tangled, inSequence, ofText, anyOf, repeated, Bound.allows_raise, Size.zero_lt_modulus,
      Size.one_lt_modulus]
    decide
  exact ⟨hwell, by decide, simplify_preserves hwell⟩

end Exemplar.Regex
