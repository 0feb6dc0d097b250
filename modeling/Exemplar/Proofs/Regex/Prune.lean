import Exemplar.Proofs.Regex.Simplify
import Exemplar.Regex.Prune

/-!
# Removing impossible parts

What is stable under rewriting survives when the impossible parts of a tree are removed, and what is
left of the tree lies within its extent (`Stable.prune`).
-/

namespace Exemplar.Regex

/-- A row of trees is possible when the first tree is and the others are. -/
theorem pruneEach_cons_eq_some {tree : Regex} {trees pruned : List Regex} :
    pruneEach (tree :: trees) = some pruned ↔
      ∃ first rest, tree.prune = some first ∧ pruneEach trees = some rest ∧
        pruned = first :: rest := by
  rw [pruneEach]
  cases tree.prune <;> cases pruneEach trees <;> simp [eq_comm]

/-- A sequence is possible when all its parts are. -/
theorem prune_sequence_eq_some {parts : List Regex} {pruned : Regex} :
    (sequence parts).prune = some pruned ↔
      ∃ rest, pruneEach parts = some rest ∧ pruned = inSequence rest := by
  rw [prune]
  cases pruneEach parts <;> simp [eq_comm]

/-- A choice is possible when one of its options is. -/
theorem prune_choice_eq_some {options : List Regex} {pruned : Regex} :
    (choice options).prune = some pruned ↔
      options.filterMap prune ≠ [] ∧ pruned = choice (options.filterMap prune) := by
  rw [prune, pruneAny_eq_filterMap]
  cases options.filterMap prune <;> simp [anyOf, eq_comm]

/-- A repetition is possible when its body is, or when it may have no copies. -/
theorem prune_repetition_eq_some {body pruned : Regex} {least : Nat} {most : Bound}
    {mode : RepetitionMode} :
    (repetition body least most mode).prune = some pruned ↔
      (∃ rest, body.prune = some rest ∧ pruned = rest.repeated least most mode) ∨
        (body.prune = none ∧ least = 0 ∧ pruned = empty) := by
  rw [prune]
  cases body.prune with
  | some rest => simp [eq_comm]
  | none =>
    by_cases hleast : least = 0
    · simp [hleast, eq_comm]
    · simp [hleast]

/-- A group is possible when its body is, and an assertion that its body is absent always is. -/
theorem prune_group_eq_some {kind : GroupKind} {body pruned : Regex} :
    (group kind body).prune = some pruned ↔
      (kind.isNegated = true ∧ pruned = group kind body) ∨
        (kind.isNegated = false ∧ ∃ rest, body.prune = some rest ∧
          pruned = group kind rest) := by
  rw [prune]
  cases hnegated : kind.isNegated <;> cases body.prune <;> simp [eq_comm]

variable {property : Regex → Prop}

/-- The extent of several options narrows when each of them does or is dropped, as long as one is
left. -/
theorem anyOf_filterMap_prune_within {options : List Regex}
    (h : ∀ option ∈ options, ∀ rest, option.prune = some rest →
      rest.extent.Within option.extent)
    (hsome : options.filterMap prune ≠ []) :
    (Extent.anyOf ((options.filterMap prune).map extent)).Within
      (Extent.anyOf (options.map extent)) := by
  induction options with
  | nil => exact absurd rfl hsome
  | cons option options ih =>
    have htail := ih fun other hother ↦ h other (List.mem_cons_of_mem _ hother)
    cases hprune : option.prune with
    | none =>
      rw [List.filterMap_cons_none hprune] at hsome ⊢
      have hoptions : options.map extent ≠ [] := by
        rintro hnil
        simp_all
      rw [List.map_cons, Extent.anyOf_cons _ hoptions]
      exact .either_right (htail hsome)
    | some rest =>
      have hhead := h option (by simp) rest hprune
      rw [List.filterMap_cons_some hprune, List.map_cons, List.map_cons]
      by_cases hrest : options.filterMap prune = []
      · rw [hrest]
        by_cases hoptions : options.map extent = []
        · rw [hoptions]
          exact hhead
        · rw [Extent.anyOf_cons _ hoptions]
          exact .either_left hhead
      · have hoptions : options.map extent ≠ [] := by
          rintro hnil
          simp_all
        rw [Extent.anyOf_cons _ (by simpa using hrest), Extent.anyOf_cons _ hoptions]
        exact hhead.either (htail hrest)

/-- What is left of parts in a row keeps a property and narrows their extent when this holds of
each part. -/
theorem everywhere_pruneEach {parts pruned : List Regex}
    (h : ∀ part ∈ parts, ∀ rest, part.prune = some rest →
      rest.Everywhere property ∧ rest.extent.Within part.extent)
    (hprune : pruneEach parts = some pruned) :
    (∀ part ∈ pruned, part.Everywhere property) ∧
      (Extent.inSequence (pruned.map extent)).Within (Extent.inSequence (parts.map extent)) := by
  induction parts generalizing pruned with
  | nil =>
    cases hprune
    exact ⟨List.forall_mem_nil _, .refl _⟩
  | cons part parts ih =>
    obtain ⟨hpart, hparts⟩ := List.forall_mem_cons.1 h
    obtain ⟨first, others, hfirst, hothers, rfl⟩ := pruneEach_cons_eq_some.1 hprune
    obtain ⟨hhead, hwithin⟩ := hpart first hfirst
    obtain ⟨htail, hwithin'⟩ := ih hparts hothers
    exact ⟨List.forall_mem_cons.2 ⟨hhead, htail⟩, hwithin.followedBy hwithin'⟩

/-- A stable property survives pruning, and what is left of a tree lies within its extent. -/
theorem Stable.prune (hstable : Stable property) {tree pruned : Regex}
    (h : tree.Everywhere property) (hprune : tree.prune = some pruned) :
    pruned.Everywhere property ∧ pruned.extent.Within tree.extent := by
  induction tree generalizing pruned with
  | empty => cases hprune; exact ⟨h, .refl _⟩
  | literal text ignoreCase => cases hprune; exact ⟨h, .refl _⟩
  | set members =>
    rw [Regex.prune] at hprune
    split at hprune
    · cases hprune
    · cases hprune
      exact ⟨h, .refl _⟩
  | sequence parts ih =>
    rw [everywhere_sequence] at h
    obtain ⟨rest, hrest, rfl⟩ := prune_sequence_eq_some.1 hprune
    have hparts := everywhere_pruneEach
      (fun part hpart pruned hpruned ↦ ih part hpart (h.2 part hpart) hpruned) hrest
    refine ⟨hstable.inSequence hparts.1, ?_⟩
    rw [extent_inSequence, extent, extents_eq_map]
    exact hparts.2
  | choice options ih =>
    rw [everywhere_choice] at h
    obtain ⟨hsome, rfl⟩ := prune_choice_eq_some.1 hprune
    refine ⟨everywhere_choice.2 ⟨hstable.choice hsome, fun rest hrest ↦ ?_⟩, ?_⟩
    · obtain ⟨option, hoption, hprune⟩ := List.mem_filterMap.1 hrest
      exact (ih option hoption (h.2 option hoption) hprune).1
    · rw [extent, extent, extents_eq_map, extents_eq_map]
      exact anyOf_filterMap_prune_within
        (fun option hoption rest hrest ↦ (ih option hoption (h.2 option hoption) hrest).2) hsome
  | repetition body least most mode ih =>
    rw [everywhere_repetition] at h
    rcases prune_repetition_eq_some.1 hprune with ⟨rest, hrest, rfl⟩ | ⟨-, rfl, rfl⟩
    · obtain ⟨hbody, hwithin⟩ := ih h.2 hrest
      refine ⟨hstable.repeated h.1 hbody, ?_⟩
      rw [Regex.repeated, Bound.raise_of_allows (hstable.isBuilt h.1).1]
      exact hwithin.repeated least most
    · -- An impossible body is repeated no times.
      exact ⟨hstable.empty, .zero_repeated _ _⟩
  | group kind body ih =>
    rw [everywhere_group] at h
    rcases prune_group_eq_some.1 hprune with ⟨-, rfl⟩ | ⟨-, rest, hrest, rfl⟩
    · exact ⟨everywhere_group.2 h, .refl _⟩
    · obtain ⟨hbody, hwithin⟩ := ih h.2 hrest
      refine ⟨everywhere_group.2 ⟨hstable.group h.1 hwithin, hbody⟩, ?_⟩
      rw [extent, extent]
      split
      · exact .refl _
      · exact hwithin
  | backref id extent => cases hprune; exact ⟨h, .refl _⟩

end Exemplar.Regex
