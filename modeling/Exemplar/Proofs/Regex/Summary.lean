import Exemplar.Proofs.Regex.Prune
import Exemplar.Proofs.Regex.Rereading
import Mathlib.Data.List.Forall2

/-!
# Summaries of trees

A summary is computed from the leaves of a tree upwards, by one operation for each kind of tree,
and does not look at the texts and the sets. Under a few laws (`Summary.Lawful`) the rewriting of a
tree can only lower its summary: pruning and simplification drop options and copies
(`summarize_prune_le`, `summarize_simplify_le`), and the tree that is read from the pattern of a
tree has the same summary (`summarize_reread`).
-/

namespace Exemplar

/-- How the summary of a tree is made of those of its parts. `nothing` is the summary of what has
no parts and refers to nothing, `andThen` that of one tree and then another, and `orElse` that of
one tree or another. `copies`, `inside` and `reference` make those of copies of a tree, of a tree
in a group and of a reference. -/
structure Summary (α : Type) where
  nothing : α
  andThen : α → α → α
  orElse : α → α → α
  copies : (least : Nat) → (most : Bound) → α → α
  inside : GroupKind → α → α
  reference : GroupId → α

namespace Summary

variable {α : Type}

/-- The summary of parts in a row. -/
def all (summary : Summary α) : List α → α
  | [] => summary.nothing
  | part :: parts => summary.andThen part (summary.all parts)

/-- The summary of one of several options. -/
def any (summary : Summary α) : List α → α
  | [] => summary.nothing
  | [option] => option
  | option :: options => summary.orElse option (summary.any options)

end Summary

namespace Regex

variable {α : Type}

mutual
/-- The summary of a tree. -/
def summarize (summary : Summary α) : Regex → α
  | sequence parts => summary.all (summarizeAll summary parts)
  | choice options => summary.any (summarizeAll summary options)
  | repetition body least most _ => summary.copies least most (summarize summary body)
  | group kind body => summary.inside kind (summarize summary body)
  | backref id _ => summary.reference id
  | _ => summary.nothing

/-- The summaries of several trees. -/
def summarizeAll (summary : Summary α) : List Regex → List α
  | [] => []
  | tree :: trees => summarize summary tree :: summarizeAll summary trees
end

/-- The summaries of several trees are those of each. -/
@[simp] theorem summarizeAll_eq_map (summary : Summary α) (trees : List Regex) :
    summarizeAll summary trees = trees.map (summarize summary) := by
  induction trees with
  | nil => rfl
  | cons tree trees ih => rw [summarizeAll, ih, List.map_cons]

end Regex

/-- The laws under which a summary outlives the rewriting of a tree: parts in a row and options may
be grouped in any way, and `le lower upper` holds when options are dropped, or copies of which
there may be none. -/
structure Summary.Lawful {α : Type} (summary : Summary α) (le : α → α → Prop) : Prop where
  refl (part : α) : le part part
  trans {low middle high : α} : le low middle → le middle high → le low high
  andThen {part part' next next' : α} :
    le part part' → le next next' → le (summary.andThen part next) (summary.andThen part' next')
  orElse {option option' next next' : α} :
    le option option' → le next next' →
    le (summary.orElse option next) (summary.orElse option' next')
  copies {least : Nat} {most : Bound} {body body' : α} :
    le body body' → le (summary.copies least most body) (summary.copies least most body')
  inside {kind : GroupKind} {body body' : α} :
    le body body' → le (summary.inside kind body) (summary.inside kind body')
  nothing_andThen (part : α) : summary.andThen summary.nothing part = part
  andThen_nothing (part : α) : summary.andThen part summary.nothing = part
  andThen_assoc (part next last : α) :
    summary.andThen (summary.andThen part next) last =
      summary.andThen part (summary.andThen next last)
  orElse_assoc (option next last : α) :
    summary.orElse (summary.orElse option next) last =
      summary.orElse option (summary.orElse next last)
  le_orElse_left (option next : α) : le option (summary.orElse option next)
  le_orElse_right (option next : α) : le next (summary.orElse option next)
  nothing_le_copies (most : Bound) (body : α) : le summary.nothing (summary.copies 0 most body)
  copies_nothing (least : Nat) (most : Bound) :
    summary.copies least most summary.nothing = summary.nothing
  copies_one (body : α) : summary.copies 1 1 body = body
  inside_plain (body : α) : summary.inside .plain body = body

namespace Summary.Lawful

variable {α : Type} {summary : Summary α} {le : α → α → Prop}

/-- Rows one after the other are one row. -/
theorem all_append (h : summary.Lawful le) (parts others : List α) :
    summary.all (parts ++ others) = summary.andThen (summary.all parts) (summary.all others) := by
  induction parts with
  | nil => exact (h.nothing_andThen _).symm
  | cons part parts ih => rw [List.cons_append, all, all, ih, h.andThen_assoc]

/-- One part in a row is the part. -/
theorem all_singleton (h : summary.Lawful le) (part : α) : summary.all [part] = part :=
  h.andThen_nothing part

/-- An option in front of others is an option more. -/
theorem any_cons (option : α) {options : List α} (hoptions : options ≠ []) :
    summary.any (option :: options) = summary.orElse option (summary.any options) := by
  cases options with
  | nil => exact absurd rfl hoptions
  | cons next options => rfl

/-- Options and further options are options. -/
theorem any_append (h : summary.Lawful le) {options others : List α} (hoptions : options ≠ [])
    (hothers : others ≠ []) :
    summary.any (options ++ others) =
      summary.orElse (summary.any options) (summary.any others) := by
  induction options with
  | nil => exact absurd rfl hoptions
  | cons option options ih =>
    rw [List.cons_append, any_cons option (List.append_ne_nil_of_right_ne_nil _ hothers)]
    cases options with
    | nil => rfl
    | cons next options => rw [ih (by simp), any_cons option (by simp), h.orElse_assoc]

/-- Lower parts make a lower row. -/
theorem all_le (h : summary.Lawful le) {parts parts' : List α}
    (hparts : List.Forall₂ le parts parts') :
    le (summary.all parts) (summary.all parts') := by
  induction hparts with
  | nil => exact h.refl _
  | cons hpart hparts ih => exact h.andThen hpart ih

/-- Lower options make a lower choice. -/
theorem any_le (h : summary.Lawful le) {options options' : List α}
    (hoptions : List.Forall₂ le options options') :
    le (summary.any options) (summary.any options') := by
  induction hoptions with
  | nil => exact h.refl _
  | cons hoption hrest ih =>
    cases hrest with
    | nil => exact hoption
    | cons hnext hrest => exact h.orElse hoption ih

end Summary.Lawful

namespace Regex

open Summary.Lawful (any_cons)

variable {α : Type} {summary : Summary α} {le : α → α → Prop}

/-- The summary of parts in a row. -/
theorem summarize_inSequence (parts : List Regex) :
    (inSequence parts).summarize summary = summary.all (parts.map (summarize summary)) := by
  cases parts with
  | nil => rfl
  | cons part parts =>
    show (sequence (part :: parts)).summarize summary = _
    rw [summarize, summarizeAll_eq_map]

/-- The summary of one of several options. -/
theorem summarize_anyOf (options : List Regex) :
    (anyOf options).summarize summary = summary.any (options.map (summarize summary)) := by
  cases options with
  | nil => rfl
  | cons option options =>
    show (choice (option :: options)).summarize summary = _
    rw [summarize, summarizeAll_eq_map]

/-! ## Pruning -/

/-- Dropping some options, as long as one is left, lowers the summary of a choice. -/
theorem any_filterMap_prune_le (h : summary.Lawful le) {options : List Regex}
    (ih : ∀ option ∈ options, ∀ pruned, option.prune = some pruned →
      le (pruned.summarize summary) (option.summarize summary))
    (hsome : options.filterMap prune ≠ []) :
    le (summary.any ((options.filterMap prune).map (summarize summary)))
      (summary.any (options.map (summarize summary))) := by
  induction options with
  | nil => exact absurd rfl hsome
  | cons option options ihoptions =>
    have hrest := ihoptions fun other hother ↦ ih other (List.mem_cons_of_mem _ hother)
    by_cases hoptions : options = []
    · subst hoptions
      cases hprune : option.prune with
      | none => simp [hprune] at hsome
      | some pruned =>
        rw [List.filterMap_cons_some hprune]
        exact ih option (by simp) pruned hprune
    · have hmap : options.map (summarize summary) ≠ [] := by simpa using hoptions
      rw [List.map_cons, any_cons _ hmap]
      cases hprune : option.prune with
      | none =>
        rw [List.filterMap_cons_none hprune] at hsome ⊢
        exact h.trans (hrest hsome) (h.le_orElse_right ..)
      | some pruned =>
        have hfirst := ih option (by simp) pruned hprune
        rw [List.filterMap_cons_some hprune, List.map_cons]
        by_cases hnone : options.filterMap prune = []
        · rw [hnone]
          exact h.trans hfirst (h.le_orElse_left ..)
        · rw [any_cons _ (by simpa using hnone)]
          exact h.orElse hfirst (hrest hnone)

/-- Pruning lowers the summary of a tree. -/
theorem summarize_prune_le (h : summary.Lawful le) {tree pruned : Regex} (hwell : tree.WellFormed)
    (hprune : tree.prune = some pruned) :
    le (pruned.summarize summary) (tree.summarize summary) := by
  induction tree generalizing pruned with
  | empty => cases hprune; exact h.refl _
  | literal text ignoreCase => cases hprune; exact h.refl _
  | set members =>
    rw [prune] at hprune
    split at hprune
    · cases hprune
    · cases hprune
      exact h.refl _
  | sequence parts ih =>
    rw [wellFormed_sequence] at hwell
    obtain ⟨rest, hrest, rfl⟩ := prune_sequence_eq_some.1 hprune
    rw [summarize_inSequence, summarize, summarizeAll_eq_map]
    clear hprune
    induction parts generalizing rest with
    | nil => cases hrest; exact h.refl _
    | cons part parts ihparts =>
      obtain ⟨hpart, hparts⟩ := List.forall_mem_cons.1 hwell
      obtain ⟨first, others, hfirst, hothers, rfl⟩ := pruneEach_cons_eq_some.1 hrest
      exact h.andThen (ih part (by simp) hpart hfirst)
        (ihparts (fun other hother ↦ ih other (List.mem_cons_of_mem _ hother)) hparts
          others hothers)
  | choice options ih =>
    rw [wellFormed_choice] at hwell
    obtain ⟨hsome, rfl⟩ := prune_choice_eq_some.1 hprune
    rw [summarize, summarize, summarizeAll_eq_map, summarizeAll_eq_map]
    exact any_filterMap_prune_le h
      (fun option hoption pruned ↦ ih option hoption (hwell.2 option hoption)) hsome
  | repetition body least most mode ih =>
    rw [wellFormed_repetition] at hwell
    rcases prune_repetition_eq_some.1 hprune with ⟨rest, hrest, rfl⟩ | ⟨-, rfl, rfl⟩
    · rw [repeated, Bound.raise_of_allows hwell.1.1]
      exact h.copies (ih hwell.2 hrest)
    · exact h.nothing_le_copies ..
  | group kind body ih =>
    rw [wellFormed_group] at hwell
    rcases prune_group_eq_some.1 hprune with ⟨-, rfl⟩ | ⟨-, rest, hrest, rfl⟩
    · exact h.refl _
    · exact h.inside (ih hwell hrest)
  | backref id extent => cases hprune; exact h.refl _

/-! ## Simplification -/

/-- Putting a tree in front of parts in a row adds its summary in front. -/
theorem all_map_prepend (h : summary.Lawful le) (tree : Regex) (rest : List Regex) :
    summary.all ((prepend tree rest).map (summarize summary)) =
      summary.andThen (tree.summarize summary) (summary.all (rest.map (summarize summary))) := by
  induction tree generalizing rest with
  | empty => exact (h.nothing_andThen _).symm
  | sequence parts ih =>
    rw [prepend, prependAll_eq_foldr, summarize, summarizeAll_eq_map]
    induction parts with
    | nil => exact (h.nothing_andThen _).symm
    | cons head parts ihparts =>
      rw [List.foldr_cons, ih head (by simp), List.map_cons, Summary.all, h.andThen_assoc,
        ihparts fun part hpart ↦ ih part (List.mem_cons_of_mem _ hpart)]
  | literal text ignoreCase =>
    rcases prepend_literal_eq text ignoreCase rest with ⟨next, rest', rfl, heq⟩ | heq
    · rw [heq]
      exact (h.nothing_andThen _).symm
    · rw [heq]
      rfl
  | set members => rfl
  | choice options ih => rfl
  | repetition body least most mode ih => rfl
  | group kind body ih => rfl
  | backref id extent => rfl

/-- Putting trees in front of parts in a row adds their summaries in front. -/
theorem all_map_prependAll (h : summary.Lawful le) (trees rest : List Regex) :
    summary.all ((prependAll trees rest).map (summarize summary)) =
      summary.andThen (summary.all (trees.map (summarize summary)))
        (summary.all (rest.map (summarize summary))) := by
  have hprepend := all_map_prepend h (sequence trees) rest
  rwa [prepend, summarize, summarizeAll_eq_map] at hprepend

/-- Joined parts have the summary of the parts. -/
theorem summarize_joinParts (h : summary.Lawful le) (parts : List Regex) :
    (joinParts parts).summarize summary = summary.all (parts.map (summarize summary)) := by
  unfold joinParts
  split
  · exact (h.all_singleton _).symm
  · exact summarize_inSequence _

/-- Joined options have the summary of the options. -/
theorem summarize_joinOptions (options : List Regex) :
    (joinOptions options).summarize summary = summary.any (options.map (summarize summary)) := by
  unfold joinOptions
  split
  · rfl
  · exact summarize_anyOf _

/-- The options that several trees contribute have the summaries of the trees. -/
theorem any_map_asOptions (h : summary.Lawful le) {trees : List Regex}
    (hwell : ∀ tree ∈ trees, tree.WellFormed) :
    summary.any ((trees.flatMap asOptions).map (summarize summary)) =
      summary.any (trees.map (summarize summary)) := by
  have hoptions (tree : Regex) :
      summary.any ((asOptions tree).map (summarize summary)) = tree.summarize summary := by
    unfold asOptions
    split
    · rw [summarize, summarizeAll_eq_map]
    · rfl
  induction trees with
  | nil => rfl
  | cons tree trees ih =>
    obtain ⟨htree, htrees⟩ := List.forall_mem_cons.1 hwell
    by_cases hnil : trees = []
    · subst hnil
      rw [List.flatMap_singleton, hoptions]
      rfl
    · have hfirst := flatMap_asOptions_ne_nil (List.cons_ne_nil tree []) (by simpa using htree)
      have hrest := flatMap_asOptions_ne_nil hnil htrees
      rw [List.flatMap_cons, List.map_append,
        h.any_append (by simpa using hfirst) (by simpa using hrest), hoptions, ih htrees,
        List.map_cons, any_cons _ (by simpa using hnil)]

/-- Joined copies have a summary that is no higher than that of the copies. -/
theorem summarize_joinCopies_le (h : summary.Lawful le) (body : Regex) {least : Nat} {most : Bound}
    (hallows : most.Allows least) (mode : RepetitionMode) :
    le ((joinCopies body least most mode).summarize summary)
      (summary.copies least most (body.summarize summary)) := by
  unfold joinCopies
  split
  · rename_i hnone
    rcases hnone with rfl | rfl
    · obtain rfl : least = 0 := Nat.le_zero.1 hallows
      exact h.nothing_le_copies ..
    · rw [show empty.summarize summary = summary.nothing from rfl, h.copies_nothing]
      exact h.refl _
  · split
    · rename_i hone
      obtain ⟨rfl, rfl⟩ := hone
      rw [h.copies_one]
      exact h.refl _
    · rw [repeated, Bound.raise_of_allows hallows]
      exact h.refl _

/-- Simplification lowers the summary of a tree. -/
theorem summarize_simplify_le (h : summary.Lawful le) {tree : Regex} (hwell : tree.WellFormed) :
    le (tree.simplify.summarize summary) (tree.summarize summary) := by
  have hlist {trees : List Regex}
      (ih : ∀ tree ∈ trees, le (tree.simplify.summarize summary) (tree.summarize summary)) :
      List.Forall₂ le ((trees.map simplify).map (summarize summary))
        (trees.map (summarize summary)) := by
    rw [List.map_map]
    exact List.forall₂_map_left_iff.2 (List.forall₂_map_right_iff.2 (List.forall₂_same.2 ih))
  induction tree with
  | empty => exact h.refl _
  | literal text ignoreCase => exact h.refl _
  | set members => exact h.refl _
  | sequence parts ih =>
    rw [wellFormed_sequence] at hwell
    rw [simplify, simplifyAll_eq_map, summarize_joinParts h, all_map_prependAll h, List.map_nil,
      Summary.all, h.andThen_nothing, summarize, summarizeAll_eq_map]
    exact h.all_le (hlist fun part hpart ↦ ih part hpart (hwell part hpart))
  | choice options ih =>
    rw [wellFormed_choice] at hwell
    have hsimple : ∀ option ∈ options.map simplify, option.WellFormed := by
      simpa using fun option hoption ↦ (hwell.2 option hoption).simplify
    rw [simplify, simplifyAll_eq_map, summarize_joinOptions, any_map_asOptions h hsimple, summarize,
      summarizeAll_eq_map]
    exact h.any_le (hlist fun option hoption ↦ ih option hoption (hwell.2 option hoption))
  | repetition body least most mode ih =>
    rw [wellFormed_repetition] at hwell
    rw [simplify, summarize]
    exact h.trans (summarize_joinCopies_le h _ hwell.1.1 mode) (h.copies (ih hwell.2))
  | group kind body ih =>
    rw [wellFormed_group] at hwell
    have hbody := ih hwell
    cases kind with
    | plain =>
      rw [simplify, summarize, h.inside_plain]
      exact hbody
    | capturing number name => exact h.inside hbody
    | atomic => exact h.inside hbody
    | lookahead negated => exact h.inside hbody
    | lookbehind negated => exact h.inside hbody
  | backref id extent => exact h.refl _

/-! ## Rereading -/

/-- The summary of branches, which are rows of units. -/
theorem summarize_ofRows (rows : List (List Regex)) :
    (ofRows rows).summarize summary =
      summary.any (rows.map fun row ↦ summary.all (row.map (summarize summary))) := by
  rw [ofRows, summarize_joinOptions, List.map_map]
  exact congrArg summary.any (List.map_congr_left fun row _ ↦ summarize_inSequence row)

/-- The characters of a text have no summary. -/
theorem all_map_unitsOfText (h : summary.Lawful le) (text : List Char) (ignoreCase : Bool) :
    summary.all ((unitsOfText text ignoreCase).map (summarize summary)) = summary.nothing := by
  induction text with
  | nil => rfl
  | cons c text ih =>
    rw [unitsOfText, List.map_cons, ← unitsOfText, List.map_cons, Summary.all, ih]
    exact h.andThen_nothing _

/-- The tree of a row that is a single unit has the summary of the unit. -/
theorem summarize_ofRows_singleton (h : summary.Lawful le) (unit : Regex) :
    (ofRows [[unit]]).summarize summary = unit.summarize summary := by
  rw [summarize_ofRows]
  exact h.all_singleton _

/-- The units as which a part of a sequence is read have the summary of the tree that is read from
the part. -/
theorem all_asPart (h : summary.Lawful le) (part : Regex) :
    summary.all ((asPart part part.rows).map (summarize summary)) =
      part.reread.summarize summary := by
  by_cases hchoice : ∃ options, part = choice options
  · -- A choice is put into a plain group.
    obtain ⟨options, rfl⟩ := hchoice
    rw [asPart, List.map_singleton, h.all_singleton, summarize, h.inside_plain]
    rfl
  · have hne (options : List Regex) : part ≠ choice options :=
      fun heq ↦ hchoice ⟨options, heq⟩
    obtain ⟨row, hrow⟩ := exists_rows_eq hne
    rw [reread, asPart_of_ne hne, hrow, summarize_ofRows, List.flatten_singleton]
    rfl

/-- The row of the parts of a sequence has the summaries of the trees that are read from the
parts. -/
theorem all_rowOfParts (h : summary.Lawful le) (parts : List Regex) :
    summary.all ((rowOfParts parts).map (summarize summary)) =
      summary.all (parts.map fun part ↦ part.reread.summarize summary) := by
  induction parts with
  | nil => rfl
  | cons part parts ih =>
    rw [rowOfParts, List.map_append, h.all_append, all_asPart h, ih, List.map_cons, Summary.all]

/-- The rows of the options of a choice have the summaries of the trees that are read from the
options. -/
theorem any_rowsOfOptions (h : summary.Lawful le) {options : List Regex}
    (hwell : ∀ option ∈ options, option.WellFormed) :
    summary.any ((rowsOfOptions options).map fun row ↦
      summary.all (row.map (summarize summary))) =
      summary.any (options.map fun option ↦ option.reread.summarize summary) := by
  rw [rowsOfOptions_eq_flatMap]
  induction options with
  | nil => rfl
  | cons option options ih =>
    obtain ⟨hoption, hoptions⟩ := List.forall_mem_cons.1 hwell
    have hfirst :
        summary.any (option.rows.map fun row ↦ summary.all (row.map (summarize summary))) =
        option.reread.summarize summary := (summarize_ofRows _).symm
    by_cases hnil : options = []
    · subst hnil
      rw [List.flatMap_singleton, hfirst]
      rfl
    · have hrows : options.flatMap rows ≠ [] := by
        obtain ⟨other, hother⟩ := List.exists_mem_of_ne_nil options hnil
        intro hempty
        exact rows_ne_nil (hoptions other hother) (List.flatMap_eq_nil_iff.1 hempty other hother)
      rw [List.flatMap_cons, List.map_append,
        h.any_append (by simpa using rows_ne_nil hoption) (by simpa using hrows), hfirst,
        ih hoptions,
        List.map_cons, any_cons _ (by simpa using hnil)]

/-- The tree that is read from the pattern of a tree has the summary of the tree. -/
theorem summarize_reread (h : summary.Lawful le) {tree : Regex} (hwell : tree.WellFormed) :
    tree.reread.summarize summary = tree.summarize summary := by
  induction tree with
  | empty => rfl
  | literal text ignoreCase =>
    cases ignoreCase with
    | true =>
      rw [reread, rows, summarize_ofRows_singleton h, summarize, h.inside_plain,
        summarize_inSequence, all_map_unitsOfText h]
      rfl
    | false =>
      rw [reread, rows, summarize_ofRows]
      exact all_map_unitsOfText h text false
  | set members => exact summarize_ofRows_singleton h _
  | sequence parts ih =>
    rw [wellFormed_sequence] at hwell
    rw [reread, rows, summarize_ofRows, summarize, summarizeAll_eq_map]
    show summary.all ((rowOfParts parts).map (summarize summary)) = _
    rw [all_rowOfParts h, List.map_congr_left fun part hpart ↦ ih part hpart (hwell part hpart)]
  | choice options ih =>
    rw [wellFormed_choice] at hwell
    obtain ⟨-, hwell⟩ := hwell
    rw [reread, rows, summarize_ofRows, any_rowsOfOptions h hwell, summarize, summarizeAll_eq_map,
      List.map_congr_left fun option hoption ↦ ih option hoption (hwell option hoption)]
  | repetition body least most mode ih =>
    rw [wellFormed_repetition] at hwell
    have hbody := ih hwell.2
    rw [reread, rows, summarize_ofRows_singleton h, summarize, summarize]
    congr 1
    -- Whether or not the body is put into a group, its summary is that of the body.
    split
    · rw [summarize, h.inside_plain]
      exact hbody
    · unfold onlyUnit
      split
      · rename_i unit hrows
        rw [← hbody, reread, hrows, summarize_ofRows_singleton h]
      · exact hbody
  | group kind body ih =>
    rw [wellFormed_group] at hwell
    rw [reread, rows, summarize_ofRows_singleton h, summarize, summarize]
    exact congrArg (summary.inside kind) (ih hwell)
  | backref id extent => exact summarize_ofRows_singleton h _

end Regex

end Exemplar
