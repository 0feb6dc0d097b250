import Exemplar.Proofs.Checked.Sizing
import Exemplar.Proofs.Regex.Prune

/-!
# Trees that were constructed

A tree that was constructed has no sequence without parts, no choice without options, counts in
order and backreferences to texts of some length. Simplifying, pruning, replacing sets and sizing
only construct (`Constructed.simplify`, `Constructed.prune`, `Constructed.mapSets`,
`Constructed.sized`). Some length lies in the extent of every node of such a tree
(`Constructed.valid`).
-/

namespace Exemplar.Regex

open List (Forall₂)

/-- What a node owes to the functions that build trees. -/
def IsConstructed : Regex → Prop
  | sequence parts => parts ≠ []
  | backref _ extent => extent.Valid
  | tree => IsBuilt tree

/-- Every node of the tree was constructed. -/
def Constructed (tree : Regex) : Prop :=
  tree.Everywhere IsConstructed

variable {tree body : Regex} {parts options : List Regex} {least : Nat} {most : Bound}
  {mode : RepetitionMode}

/-- A sequence was constructed when it has parts and they were constructed. -/
theorem constructed_sequence :
    (sequence parts).Constructed ↔ parts ≠ [] ∧ ∀ part ∈ parts, part.Constructed :=
  everywhere_sequence

/-- A choice was constructed when it has options and they were constructed. -/
theorem constructed_choice :
    (choice options).Constructed ↔
      options ≠ [] ∧ ∀ option ∈ options, option.Constructed :=
  everywhere_choice

/-- A repetition was constructed when its counts are in order and its body was constructed. -/
theorem constructed_repetition :
    (repetition body least most mode).Constructed ↔
      (most.Allows least ∧ least < Size.modulus) ∧ body.Constructed :=
  everywhere_repetition

/-- A group was constructed when its body was. -/
theorem constructed_group {kind : GroupKind} : (group kind body).Constructed ↔ body.Constructed :=
  everywhere_group.trans (and_iff_right trivial)

/-- Parts in a row are constructed of parts. -/
theorem constructed_inSequence (h : ∀ part ∈ parts, part.Constructed) :
    (inSequence parts).Constructed := by
  cases parts with
  | nil => exact trivial
  | cons part parts => exact constructed_sequence.2 ⟨by simp, h⟩

/-- One of several options is constructed of options. -/
theorem constructed_anyOf (h : ∀ option ∈ options, option.Constructed) :
    (anyOf options).Constructed := by
  cases options with
  | nil => exact trivial
  | cons option options => exact constructed_choice.2 ⟨by simp, h⟩

/-- Copies are constructed of a body. -/
theorem constructed_repeated (h : body.Constructed) (hleast : least < Size.modulus) (most : Bound)
    (mode : RepetitionMode) : (body.repeated least most mode).Constructed :=
  constructed_repetition.2 ⟨⟨most.allows_raise least, hleast⟩, h⟩

/-- Parts in a row are still parts in a row when they were sized. -/
theorem resizeParts_ne_nil (h : parts ≠ []) (caps : GroupId → Option Nat) (target : Nat)
    (plan : SizingPlan) :
    ((resizeParts caps parts (Extent.splitTarget (extents parts) target)).run plan).1 ≠ [] := by
  have hresults : Forall₂ (IsSizing caps) parts
      ((resizeParts caps parts (Extent.splitTarget (extents parts) target)).run plan).1 :=
    (resizeParts_related (fun part _ ↦ sizesTo_isSizing part)
      (length_splitTarget_extents parts target) trivial).1
  exact fun hnil ↦ h (List.forall₂_nil_right_iff.1 (hnil ▸ hresults))

/-- Some option is left when options were sized, because the shortest ones are always within
reach. -/
theorem resizeOptions_ne_nil (h : options ≠ []) (caps : GroupId → Option Nat) (target : Nat)
    (plan : SizingPlan) :
    ((resizeOptions caps (max target (choice options).minLength) options target).run plan).1 ≠
      [] := by
  have hresults : Forall₂ (IsSizing caps)
      (options.filter (·.minLength ≤ max target (choice options).minLength))
      ((resizeOptions caps (max target (choice options).minLength) options target).run plan).1 :=
    (resizeOptions_related (fun option _ ↦ sizesTo_isSizing option) _ target trivial).1
  obtain ⟨option, hoption, hmin⟩ := exists_minLength_le h
  intro hnil
  rw [hnil] at hresults
  have hkept := List.filter_eq_nil_iff.1 (List.forall₂_nil_right_iff.1 hresults)
  exact hkept option hoption (by simpa using .inr hmin)

namespace Constructed

/-- Some length lies in the extent of every node. -/
theorem valid (h : tree.Constructed) : tree.Everywhere (·.extent.Valid) := by
  induction tree with
  | empty => exact Nat.le_refl 0
  | literal text ignoreCase => exact (Extent.length_mem_ofLength _).2.mono (Nat.min_le_left ..)
  | set members => exact Nat.le_refl 1
  | sequence parts ih =>
    have hparts := (constructed_sequence.1 h).2
    exact everywhere_sequence.2
      ⟨valid_sequence fun part hpart ↦ (ih part hpart (hparts part hpart)).here,
        fun part hpart ↦ ih part hpart (hparts part hpart)⟩
  | choice options ih =>
    have hoptions := (constructed_choice.1 h).2
    exact everywhere_choice.2
      ⟨valid_choice fun option hoption ↦ (ih option hoption (hoptions option hoption)).here,
        fun option hoption ↦ ih option hoption (hoptions option hoption)⟩
  | repetition body least most mode ih =>
    obtain ⟨⟨hmost, -⟩, hbody⟩ := constructed_repetition.1 h
    have hrepeated := valid_repeated (ih hbody).here least most mode
    rw [repeated, Bound.raise_of_allows hmost] at hrepeated
    exact everywhere_repetition.2 ⟨hrepeated, ih hbody⟩
  | group kind body ih =>
    have hbody := ih (constructed_group.1 h)
    refine everywhere_group.2 ⟨?_, hbody⟩
    show (group kind body).extent.Valid
    rw [extent]
    split
    · exact Nat.le_refl 0
    · exact hbody.here
  | backref id extent => exact h

/-- A normal form is constructed. -/
theorem simplify (h : tree.Constructed) : tree.simplify.Constructed := by
  induction tree with
  | empty => exact h
  | literal text ignoreCase => exact h
  | set members => exact h
  | sequence parts ih =>
    have hparts := (constructed_sequence.1 h).2
    have hsimple : ∀ part ∈ parts.map Regex.simplify, part.Constructed := by
      simpa using fun part hpart ↦ ih part hpart (hparts part hpart)
    have hrow := Everywhere.prependAll (fun _ _ _ _ _ ↦ trivial) hsimple
    rw [Regex.simplify, simplifyAll_eq_map]
    unfold joinParts
    split
    · rename_i part heq
      exact hrow part (by simp [heq])
    · exact constructed_inSequence hrow
  | choice options ih =>
    have hoptions := (constructed_choice.1 h).2
    have hsimple : ∀ option ∈ options.map Regex.simplify, option.Constructed := by
      simpa using fun option hoption ↦ ih option hoption (hoptions option hoption)
    have hall := Everywhere.asOptions hsimple
    rw [Regex.simplify, simplifyAll_eq_map]
    unfold joinOptions
    split
    · rename_i option heq
      exact hall option (by simp [heq])
    · exact constructed_anyOf hall
  | repetition body least most mode ih =>
    obtain ⟨⟨-, hleast⟩, hbody⟩ := constructed_repetition.1 h
    rw [Regex.simplify]
    unfold joinCopies
    split
    · exact trivial
    · split
      · exact ih hbody
      · exact constructed_repeated (ih hbody) hleast most mode
  | group kind body ih =>
    have hbody := ih (constructed_group.1 h)
    cases kind with
    | plain => exact hbody
    | capturing number name => exact constructed_group.2 hbody
    | atomic => exact constructed_group.2 hbody
    | lookahead negated => exact constructed_group.2 hbody
    | lookbehind negated => exact constructed_group.2 hbody
  | backref id extent => exact h

/-- What is left of a tree is constructed. -/
theorem prune (h : tree.Constructed) {left : Regex} (hprune : tree.prune = some left) :
    left.Constructed := by
  induction tree generalizing left with
  | empty => cases hprune; exact h
  | literal text ignoreCase => cases hprune; exact h
  | set members =>
    rw [Regex.prune] at hprune
    split at hprune
    · cases hprune
    · cases hprune
      exact h
  | sequence parts ih =>
    obtain ⟨rest, hrest, rfl⟩ := prune_sequence_eq_some.1 hprune
    have hparts := (constructed_sequence.1 h).2
    refine constructed_inSequence ?_
    clear h hprune
    induction parts generalizing rest with
    | nil => cases hrest; simp
    | cons part parts ihparts =>
      obtain ⟨first, others, hfirst, hothers, rfl⟩ := pruneEach_cons_eq_some.1 hrest
      obtain ⟨hpart, hparts⟩ := List.forall_mem_cons.1 hparts
      exact List.forall_mem_cons.2 ⟨ih part (by simp) hpart hfirst,
        ihparts (fun other hother ↦ ih other (List.mem_cons_of_mem _ hother)) others
          hothers hparts⟩
  | choice options ih =>
    obtain ⟨hsome, rfl⟩ := prune_choice_eq_some.1 hprune
    have hoptions := (constructed_choice.1 h).2
    refine constructed_choice.2 ⟨hsome, fun rest hrest ↦ ?_⟩
    obtain ⟨option, hoption, hprune⟩ := List.mem_filterMap.1 hrest
    exact ih option hoption (hoptions option hoption) hprune
  | repetition body least most mode ih =>
    obtain ⟨⟨-, hleast⟩, hbody⟩ := constructed_repetition.1 h
    rcases prune_repetition_eq_some.1 hprune with ⟨rest, hrest, rfl⟩ | ⟨-, -, rfl⟩
    · exact constructed_repeated (ih hbody hrest) hleast most mode
    · exact trivial
  | group kind body ih =>
    rcases prune_group_eq_some.1 hprune with ⟨-, rfl⟩ | ⟨-, rest, hrest, rfl⟩
    · exact h
    · exact constructed_group.2 (ih (constructed_group.1 h) hrest)
  | backref id extent => cases hprune; exact h

/-- A tree whose sets are replaced is constructed. -/
theorem mapSets (h : tree.Constructed) (replace : CharSet → CharSet) :
    (tree.mapSets replace).Constructed := by
  induction tree with
  | empty => exact h
  | literal text ignoreCase => exact h
  | set members => exact h
  | sequence parts ih =>
    obtain ⟨hsome, hparts⟩ := constructed_sequence.1 h
    rw [Regex.mapSets, mapSetsAll_eq_map]
    exact constructed_sequence.2 ⟨by simpa using hsome,
      by simpa using fun part hpart ↦ ih part hpart (hparts part hpart)⟩
  | choice options ih =>
    obtain ⟨hsome, hoptions⟩ := constructed_choice.1 h
    rw [Regex.mapSets, mapSetsAll_eq_map]
    exact constructed_choice.2 ⟨by simpa using hsome,
      by simpa using fun option hoption ↦ ih option hoption (hoptions option hoption)⟩
  | repetition body least most mode ih =>
    obtain ⟨hcounts, hbody⟩ := constructed_repetition.1 h
    exact constructed_repetition.2 ⟨hcounts, ih hbody⟩
  | group kind body ih => exact constructed_group.2 (ih (constructed_group.1 h))
  | backref id extent => exact h

/-- A round of sizing constructs, and the extents that it notes are those of constructed bodies. -/
theorem sizesTo (h : tree.Constructed) (caps : GroupId → Option Nat) :
    SizesTo caps (fun _ result ↦ result.Constructed) NotesValid tree := by
  induction tree with
  | empty => exact fun target plan hplan ↦ ⟨h, hplan⟩
  | literal text ignoreCase => exact fun target plan hplan ↦ ⟨h, hplan⟩
  | set members => exact fun target plan hplan ↦ ⟨h, hplan⟩
  | sequence parts ih =>
    obtain ⟨hsome, hparts⟩ := constructed_sequence.1 h
    intro target plan hplan
    obtain ⟨hresults, hafter⟩ :=
      resizeParts_related (fun part hpart ↦ ih part hpart (hparts part hpart))
      (length_splitTarget_extents parts target) hplan
    exact ⟨constructed_sequence.2
      ⟨resizeParts_ne_nil hsome caps target plan, fun result hresult ↦
      (exists_of_forall₂ hresults hresult).elim fun _ h ↦ h.2⟩, hafter⟩
  | choice options ih =>
    obtain ⟨hsome, hoptions⟩ := constructed_choice.1 h
    intro target plan hplan
    obtain ⟨hresults, hafter⟩ := resizeOptions_related
      (fun option hoption ↦ ih option hoption (hoptions option hoption))
      (max target (choice options).minLength) target hplan
    exact ⟨constructed_choice.2 ⟨resizeOptions_ne_nil hsome caps target plan,
      fun result hresult ↦
      (exists_of_forall₂ hresults hresult).elim fun _ h ↦ h.2⟩, hafter⟩
  | repetition body least most mode ih =>
    obtain ⟨⟨-, hleast⟩, hbody⟩ := constructed_repetition.1 h
    intro target plan hplan
    obtain ⟨hresult, hafter⟩ := ih hbody hplan
    exact ⟨constructed_repeated hresult hleast _ mode, hafter⟩
  | group kind body ih =>
    have hbody := constructed_group.1 h
    cases kind with
    | capturing number name =>
      intro target plan hplan
      obtain ⟨hresult, hafter⟩ := ih hbody hplan
      rw [resize_capturing]
      refine ⟨constructed_group.2 hresult, fun id extent hfound ↦ ?_⟩
      rw [SizingPlan.group?_noteGroups] at hfound
      split at hfound
      · cases hfound
        exact hresult.valid.here
      · exact hafter hfound
    | plain =>
      exact fun target plan hplan ↦ (ih hbody hplan).imp_left constructed_group.2
    | atomic =>
      exact fun target plan hplan ↦ (ih hbody hplan).imp_left constructed_group.2
    | lookahead negated => exact fun target plan hplan ↦ ⟨h, hplan⟩
    | lookbehind negated => exact fun target plan hplan ↦ ⟨h, hplan⟩
  | backref id extent =>
    intro target plan hplan
    refine ⟨?_, hplan⟩
    show ((plan.group? id).getD extent).Valid
    cases hnoted : plan.group? id with
    | none => exact h
    | some noted => exact hplan hnoted

/-- A sized tree is constructed. -/
theorem sized (h : tree.Constructed) (target : Nat) : (tree.sized target).Constructed := by
  have hempty : NotesValid {} := by
    intro id extent hfound
    cases hfound
  exact (h.sizesTo _ hempty).1

end Constructed

end Exemplar.Regex
