import Exemplar.Proofs.Regex.Prune

/-!
# Possible trees

A tree is `Possible` when nothing in it needs a member of an empty set, apart from assertions that
something is absent. Pruning leaves possible trees (`possible_of_prune`) and does not change them
(`Possible.prune`), and simplification keeps them possible (`Possible.simplify`).
-/

namespace Exemplar.Regex

mutual
/-- Nothing in the tree needs a member of an empty set. -/
def Possible : Regex → Prop
  | set members => members.isEmpty = false
  | sequence parts => parts ≠ [] ∧ PossibleAll parts
  | choice options => options ≠ [] ∧ PossibleAll options
  | repetition body least most _ => most.Allows least ∧ Possible body
  | group kind body => kind.isNegated = false → Possible body
  | _ => True

/-- Nothing in several trees needs a member of an empty set. -/
def PossibleAll : List Regex → Prop
  | [] => True
  | tree :: trees => Possible tree ∧ PossibleAll trees
end

/-- Several trees are possible when each of them is. -/
@[simp] theorem possibleAll_iff {trees : List Regex} :
    PossibleAll trees ↔ ∀ tree ∈ trees, tree.Possible := by
  induction trees with
  | nil => simp [PossibleAll]
  | cons tree trees ih => simp [PossibleAll, ih]

/-- A sequence is possible when it has parts and they are possible. -/
theorem possible_sequence {parts : List Regex} :
    (sequence parts).Possible ↔ parts ≠ [] ∧ ∀ part ∈ parts, part.Possible := by
  rw [Possible, possibleAll_iff]

/-- A choice is possible when it has options and they are possible. -/
theorem possible_choice {options : List Regex} :
    (choice options).Possible ↔ options ≠ [] ∧ ∀ option ∈ options, option.Possible := by
  rw [Possible, possibleAll_iff]

/-- Possible parts in a row are possible. -/
theorem possible_inSequence {parts : List Regex} (h : ∀ part ∈ parts, part.Possible) :
    (inSequence parts).Possible := by
  cases parts with
  | nil => exact trivial
  | cons part parts => exact possible_sequence.2 ⟨by simp, h⟩

/-- One of several possible options is possible. -/
theorem possible_anyOf {options : List Regex} (h : ∀ option ∈ options, option.Possible) :
    (anyOf options).Possible := by
  cases options with
  | nil => exact trivial
  | cons option options => exact possible_choice.2 ⟨by simp, h⟩

/-- A possible tree has no impossible parts. -/
theorem Possible.prune {tree : Regex} (h : tree.Possible) : tree.prune = some tree := by
  induction tree with
  | empty => rfl
  | literal text ignoreCase => rfl
  | set members =>
    have hsome : members.isEmpty = false := h
    rw [Regex.prune, hsome]
    rfl
  | sequence parts ih =>
    obtain ⟨hsome, hparts⟩ := possible_sequence.1 h
    have heach : pruneEach parts = some parts := by
      clear h hsome
      induction parts with
      | nil => rfl
      | cons part parts ihparts =>
        obtain ⟨hpart, hrest⟩ := List.forall_mem_cons.1 hparts
        exact pruneEach_cons_eq_some.2 ⟨part, parts, ih part (by simp) hpart,
          ihparts (fun other hother ↦ ih other (List.mem_cons_of_mem _ hother)) hrest, rfl⟩
    refine prune_sequence_eq_some.2 ⟨parts, heach, ?_⟩
    rw [inSequence, if_neg (by simpa using hsome)]
  | choice options ih =>
    obtain ⟨hsome, hoptions⟩ := possible_choice.1 h
    have hall : options.filterMap Regex.prune = options := by
      clear h hsome
      induction options with
      | nil => rfl
      | cons option options ihoptions =>
        obtain ⟨hoption, hrest⟩ := List.forall_mem_cons.1 hoptions
        rw [List.filterMap_cons_some (ih option (by simp) hoption),
          ihoptions (fun other hother ↦ ih other (List.mem_cons_of_mem _ hother)) hrest]
    exact prune_choice_eq_some.2 (by rw [hall]; exact ⟨hsome, rfl⟩)
  | repetition body least most mode ih =>
    obtain ⟨hallows, hbody⟩ := h
    refine prune_repetition_eq_some.2 (.inl ⟨body, ih hbody, ?_⟩)
    rw [repeated, Bound.raise_of_allows hallows]
  | group kind body ih =>
    refine prune_group_eq_some.2 ?_
    cases hnegated : kind.isNegated with
    | true => exact .inl ⟨rfl, rfl⟩
    | false => exact .inr ⟨rfl, body, ih (h hnegated), rfl⟩
  | backref id extent => rfl

/-- What is left of a tree is possible. -/
theorem possible_of_prune {tree pruned : Regex} (hprune : tree.prune = some pruned) :
    pruned.Possible := by
  induction tree generalizing pruned with
  | empty => cases hprune; exact trivial
  | literal text ignoreCase => cases hprune; exact trivial
  | set members =>
    rw [Regex.prune] at hprune
    split at hprune
    · cases hprune
    · cases hprune
      exact Bool.eq_false_iff.2 ‹_›
  | sequence parts ih =>
    obtain ⟨rest, hrest, rfl⟩ := prune_sequence_eq_some.1 hprune
    refine possible_inSequence ?_
    clear hprune
    induction parts generalizing rest with
    | nil => cases hrest; simp
    | cons part parts ihparts =>
      obtain ⟨first, others, hfirst, hothers, rfl⟩ := pruneEach_cons_eq_some.1 hrest
      refine List.forall_mem_cons.2 ⟨ih part (by simp) hfirst, ?_⟩
      exact ihparts (fun other hother ↦ ih other (List.mem_cons_of_mem _ hother)) others hothers
  | choice options ih =>
    obtain ⟨hsome, rfl⟩ := prune_choice_eq_some.1 hprune
    refine possible_choice.2 ⟨hsome, fun rest hrest ↦ ?_⟩
    obtain ⟨option, hoption, hprune⟩ := List.mem_filterMap.1 hrest
    exact ih option hoption hprune
  | repetition body least most mode ih =>
    rcases prune_repetition_eq_some.1 hprune with ⟨rest, hrest, rfl⟩ | ⟨-, -, rfl⟩
    · exact ⟨most.allows_raise least, ih hrest⟩
    · exact trivial
  | group kind body ih =>
    rcases prune_group_eq_some.1 hprune with ⟨hnegated, rfl⟩ | ⟨-, rest, hrest, rfl⟩
    · intro hpositive
      rw [hnegated] at hpositive
      cases hpositive
    · exact fun _ ↦ ih hrest
  | backref id extent => cases hprune; exact trivial

/-- The normal form of a possible tree is possible. -/
theorem Possible.simplify {tree : Regex} (h : tree.Possible) : tree.simplify.Possible := by
  induction tree with
  | empty => exact trivial
  | literal text ignoreCase => exact trivial
  | set members => exact h
  | sequence parts ih =>
    obtain ⟨-, hparts⟩ := possible_sequence.1 h
    have hsimple : ∀ part ∈ parts.map Regex.simplify, part.Possible := by
      simpa using fun part hpart ↦ ih part hpart (hparts part hpart)
    have hrow := forall_mem_prependAll (fun _ h ↦ (possible_sequence.1 h).2)
      (fun _ _ _ _ _ ↦ trivial) hsimple
    rw [Regex.simplify, simplifyAll_eq_map]
    unfold joinParts
    split
    · rename_i part heq
      exact hrow part (by simp [heq])
    · exact possible_inSequence hrow
  | choice options ih =>
    obtain ⟨-, hoptions⟩ := possible_choice.1 h
    have hsimple : ∀ option ∈ options.map Regex.simplify, option.Possible := by
      simpa using fun option hoption ↦ ih option hoption (hoptions option hoption)
    have hall := forall_mem_asOptions (fun _ h ↦ (possible_choice.1 h).2) hsimple
    rw [Regex.simplify, simplifyAll_eq_map]
    unfold joinOptions
    split
    · rename_i option heq
      exact hall option (by simp [heq])
    · exact possible_anyOf hall
  | repetition body least most mode ih =>
    rw [Regex.simplify]
    unfold joinCopies
    split
    · exact trivial
    · split
      · exact ih h.2
      · exact ⟨most.allows_raise least, ih h.2⟩
  | group kind body ih =>
    cases kind with
    | plain => exact ih (h rfl)
    | capturing number name => exact fun _ ↦ ih (h rfl)
    | atomic => exact fun _ ↦ ih (h rfl)
    | lookahead negated => exact fun hnegated ↦ ih (h hnegated)
    | lookbehind negated => exact fun hnegated ↦ ih (h hnegated)
  | backref id extent => exact trivial

end Exemplar.Regex
