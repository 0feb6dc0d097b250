import Exemplar.Proofs.Regex.Summary
import Exemplar.Regex.Sized

/-!
# Groups and references in the order of the text

The marks of a tree say where in its pattern capturing groups begin and end and where they are
referred to. References lead back when each of them stands behind the end of its group
(`LeadBack`). Rewriting a tree drops marks but keeps their order, so references still lead back in
what is left of a tree, as long as their groups are left too (`LeadBack.of_sublist`).
-/

namespace Exemplar

/-- What the pattern of a tree does about capturing groups at some place: one begins, ends or is
referred to. -/
inductive Mark where
  | opens (number : Nat) (name : Option String)
  | closes (number : Nat) (name : Option String)
  | refers (id : GroupId)
  deriving DecidableEq, Repr, Inhabited

/-- The mark at the start of a group, if it captures. -/
def GroupKind.opening : GroupKind → List Mark
  | capturing number name => [.opens number name]
  | _ => []

/-- The mark at the end of a group, if it captures. -/
def GroupKind.closing : GroupKind → List Mark
  | capturing number name => [.closes number name]
  | _ => []

namespace Mark

/-- The number of the group that begins. -/
def opened? : Mark → Option Nat
  | opens number _ => some number
  | _ => none

/-- The number of the group that ends. -/
def closed? : Mark → Option Nat
  | closes number _ => some number
  | _ => none

/-- The reference. -/
def referred? : Mark → Option GroupId
  | refers id => some id
  | _ => none

/-- The references that lead to the group that ends. -/
def ids : Mark → List GroupId
  | closes number name => groupIds number name
  | _ => []

/-- A reference that leads to a group of marks leads to one that ends in them. -/
theorem exists_closes_of_mem_ids {marks : List Mark} {id : GroupId} (h : id ∈ marks.flatMap ids) :
    ∃ number name, closes number name ∈ marks ∧ id ∈ groupIds number name := by
  obtain ⟨mark, hmark, hid⟩ := List.mem_flatMap.1 h
  cases mark with
  | opens number name => cases hid
  | closes number name => exact ⟨number, name, hmark, hid⟩
  | refers other => cases hid

/-- Marks are listed in the order of the text. -/
def summary : Summary (List Mark) where
  nothing := []
  andThen := (· ++ ·)
  orElse := (· ++ ·)
  copies _ _ body := body
  inside kind body := kind.opening ++ body ++ kind.closing
  reference id := [refers id]

/-- Rewriting a tree may drop marks. -/
theorem lawful_summary : summary.Lawful List.Sublist where
  refl := List.Sublist.refl
  trans := List.Sublist.trans
  andThen := List.Sublist.append
  orElse := List.Sublist.append
  copies h := h
  inside h := (h.append_left _).append_right _
  nothing_andThen := List.nil_append
  andThen_nothing := List.append_nil
  andThen_assoc := List.append_assoc
  orElse_assoc := List.append_assoc
  le_orElse_left := List.sublist_append_left
  le_orElse_right := List.sublist_append_right
  nothing_le_copies _ := List.nil_sublist
  copies_nothing _ _ := rfl
  copies_one _ := rfl
  inside_plain body := by simp [summary, GroupKind.opening, GroupKind.closing]

/-- The marks of parts in a row are those of each part. -/
theorem all_summary (parts : List (List Mark)) : summary.all parts = parts.flatten := by
  induction parts with
  | nil => rfl
  | cons part parts ih => rw [Summary.all, ih, List.flatten_cons]; rfl

/-- The marks of options are those of each option. -/
theorem any_summary (options : List (List Mark)) : summary.any options = options.flatten := by
  induction options with
  | nil => rfl
  | cons option options ih =>
    cases options with
    | nil => exact (List.flatten_singleton).symm
    | cons next options =>
      rw [Summary.Lawful.any_cons option (List.cons_ne_nil _ _), ih, List.flatten_cons]
      rfl

end Mark

namespace GroupKind

/-- The group that begins has the number of the group. -/
theorem filterMap_opening (kind : GroupKind) :
    kind.opening.filterMap Mark.opened? = kind.numbers := by
  cases kind <;> rfl

/-- At the end of a group no group begins. -/
theorem filterMap_closing (kind : GroupKind) : kind.closing.filterMap Mark.opened? = [] := by
  cases kind <;> rfl

/-- A group that does not capture has no mark at its start. -/
theorem opening_eq_nil {kind : GroupKind} (h : kind.numbers = []) : kind.opening = [] := by
  cases kind with
  | capturing number name => cases h
  | plain => rfl
  | atomic => rfl
  | lookahead negated => rfl
  | lookbehind negated => rfl

/-- The start of a group is no reference. -/
theorem refers_notMem_opening (kind : GroupKind) (id : GroupId) : .refers id ∉ kind.opening := by
  cases kind <;> simp [opening]

/-- The end of a group is no reference. -/
theorem refers_notMem_closing (kind : GroupKind) (id : GroupId) : .refers id ∉ kind.closing := by
  cases kind <;> simp [closing]

end GroupKind

namespace Regex

/-- The marks of a tree. -/
def marks (tree : Regex) : List Mark :=
  tree.summarize Mark.summary

/-- The references in a tree, those in assertions included, in the order of the text. -/
def referenceIds (tree : Regex) : List GroupId :=
  tree.marks.filterMap Mark.referred?

/-- The references that lead to a group of the tree. -/
def definedIds (tree : Regex) : List GroupId :=
  tree.marks.flatMap Mark.ids

/-- A sequence has the marks of its parts. -/
theorem marks_sequence (parts : List Regex) : (sequence parts).marks = parts.flatMap marks := by
  rw [marks, summarize, summarizeAll_eq_map, Mark.all_summary, List.flatMap_def]
  rfl

/-- A choice has the marks of its options. -/
theorem marks_choice (options : List Regex) : (choice options).marks = options.flatMap marks := by
  rw [marks, summarize, summarizeAll_eq_map, Mark.any_summary, List.flatMap_def]
  rfl

/-- Parts in a row have the marks of the parts. -/
theorem marks_inSequence (parts : List Regex) : (inSequence parts).marks = parts.flatMap marks := by
  cases parts with
  | nil => rfl
  | cons part parts => exact marks_sequence _

/-- One of several options has the marks of the options. -/
theorem marks_anyOf (options : List Regex) : (anyOf options).marks = options.flatMap marks := by
  cases options with
  | nil => rfl
  | cons option options => exact marks_choice _

/-- A repetition has the marks of its body. -/
theorem marks_repetition (body : Regex) (least : Nat) (most : Bound) (mode : RepetitionMode) :
    (repetition body least most mode).marks = body.marks :=
  rfl

/-- A group has the marks of its body, between its own if it captures. -/
theorem marks_group (kind : GroupKind) (body : Regex) :
    (group kind body).marks = kind.opening ++ body.marks ++ kind.closing :=
  rfl

/-- A sequence has the references of its parts. -/
theorem referenceIds_sequence (parts : List Regex) :
    (sequence parts).referenceIds = parts.flatMap referenceIds := by
  rw [referenceIds, marks_sequence, List.filterMap_flatMap]
  rfl

/-- A choice has the references of its options. -/
theorem referenceIds_choice (options : List Regex) :
    (choice options).referenceIds = options.flatMap referenceIds := by
  rw [referenceIds, marks_choice, List.filterMap_flatMap]
  rfl

/-- A group has the references of its body. -/
theorem referenceIds_group (kind : GroupKind) (body : Regex) :
    (group kind body).referenceIds = body.referenceIds := by
  have hopening : kind.opening.filterMap Mark.referred? = [] := by cases kind <;> rfl
  have hclosing : kind.closing.filterMap Mark.referred? = [] := by cases kind <;> rfl
  rw [referenceIds, marks_group, List.filterMap_append, List.filterMap_append, hopening, hclosing,
    List.append_nil]
  rfl

/-- The groups of a tree begin in the order of their numbers in the list. -/
theorem filterMap_opened_marks (tree : Regex) :
    tree.marks.filterMap Mark.opened? = tree.groupNumbers := by
  have hlist (trees : List Regex)
      (ih : ∀ tree ∈ trees, tree.marks.filterMap Mark.opened? = tree.groupNumbers) :
      (trees.flatMap marks).filterMap Mark.opened? = groupNumbersOfAll trees := by
    induction trees with
    | nil => rfl
    | cons tree trees ihtrees =>
      rw [List.flatMap_cons, List.filterMap_append, ih tree (by simp), groupNumbersOfAll,
        ihtrees fun other hother ↦ ih other (List.mem_cons_of_mem _ hother)]
  induction tree with
  | empty => rfl
  | literal text ignoreCase => rfl
  | set members => rfl
  | sequence parts ih => rw [marks_sequence, groupNumbers, hlist parts ih]
  | choice options ih => rw [marks_choice, groupNumbers, hlist options ih]
  | repetition body least most mode ih => exact ih
  | group kind body ih =>
    rw [marks_group, List.filterMap_append, List.filterMap_append, ih, kind.filterMap_opening,
      kind.filterMap_closing, List.append_nil, groupNumbers]
  | backref id extent => rfl

/-- The groups that end in a tree are those that begin in it. -/
theorem filterMap_closed_marks_perm (tree : Regex) :
    (tree.marks.filterMap Mark.closed?).Perm tree.groupNumbers := by
  have hlist (trees : List Regex)
      (ih : ∀ tree ∈ trees, (tree.marks.filterMap Mark.closed?).Perm tree.groupNumbers) :
      ((trees.flatMap marks).filterMap Mark.closed?).Perm (groupNumbersOfAll trees) := by
    induction trees with
    | nil => exact .refl _
    | cons tree trees ihtrees =>
      rw [List.flatMap_cons, List.filterMap_append]
      exact (ih tree (by simp)).append
        (ihtrees fun other hother ↦ ih other (List.mem_cons_of_mem _ hother))
  induction tree with
  | empty => exact .refl _
  | literal text ignoreCase => exact .refl _
  | set members => exact .refl _
  | sequence parts ih =>
    rw [marks_sequence, groupNumbers]
    exact hlist parts ih
  | choice options ih =>
    rw [marks_choice, groupNumbers]
    exact hlist options ih
  | repetition body least most mode ih => exact ih
  | group kind body ih =>
    rw [marks_group, List.filterMap_append, List.filterMap_append, groupNumbers]
    cases kind with
    | capturing number name => exact (ih.append_right [number]).trans List.perm_append_comm
    | plain => simpa [GroupKind.opening, GroupKind.closing, GroupKind.numbers] using ih
    | atomic => simpa [GroupKind.opening, GroupKind.closing, GroupKind.numbers] using ih
    | lookahead negated => simpa [GroupKind.opening, GroupKind.closing, GroupKind.numbers] using ih
    | lookbehind negated => simpa [GroupKind.opening, GroupKind.closing, GroupKind.numbers] using ih
  | backref id extent => exact .refl _

end Regex

/-! ## References that lead back -/

/-- Every reference stands behind the end of a group to which it leads. -/
def LeadBack (marks : List Mark) : Prop :=
  ∀ before id after, marks = before ++ .refers id :: after → id ∈ before.flatMap Mark.ids

namespace LeadBack

variable {marks others : List Mark}

/-- References in the first marks lead back to groups in these. -/
theorem of_append (h : LeadBack (marks ++ others)) : LeadBack marks := by
  rintro before id after rfl
  exact h before id (after ++ others) (by simp)

/-- References that lead to groups in front of all of them lead back. -/
theorem append (h : LeadBack marks)
    (hothers : ∀ id, .refers id ∈ others → id ∈ marks.flatMap Mark.ids) :
    LeadBack (marks ++ others) := by
  intro before id after heq
  rcases List.append_eq_append_iff.1 heq with ⟨middle, rfl, hafter⟩ | ⟨middle, rfl, hafter⟩
  · -- The reference is one of the others.
    have hmem : .refers id ∈ others := by simp [hafter]
    rw [List.flatMap_append]
    exact List.mem_append_left _ (hothers id hmem)
  · cases middle with
    | nil =>
      have hmem : .refers id ∈ others := by
        rw [List.nil_append] at hafter
        simp [← hafter]
      simpa using hothers id hmem
    | cons mark middle =>
      obtain ⟨rfl, rfl⟩ := List.cons.inj hafter
      exact h before id middle rfl

/-- When marks are dropped, references still lead back if their groups are left and no two groups
answer to the same reference. -/
theorem of_sublist (h : LeadBack others) (hmarks : marks.Sublist others)
    (hdistinct : (others.flatMap Mark.ids).Nodup)
    (hleft : ∀ id, .refers id ∈ marks → id ∈ marks.flatMap Mark.ids) : LeadBack marks := by
  rintro before id after rfl
  have hid := hleft id (by simp)
  rw [List.flatMap_append, List.mem_append] at hid
  refine hid.resolve_right fun hlater ↦ ?_
  -- If the group ended behind the reference, it would end behind it among the others too.
  obtain ⟨first, last, rfl, -, hlast⟩ := List.append_sublist_iff.1 hmarks
  obtain ⟨middle, rest, rfl, hmiddle, hrest⟩ := List.cons_sublist_iff.1 hlast
  obtain ⟨left, right, rfl⟩ := List.append_of_mem hmiddle
  have hbehind : id ∈ (right ++ rest).flatMap Mark.ids := by
    obtain ⟨mark, hmark, hid⟩ :=
      List.mem_flatMap.1 (show id ∈ after.flatMap Mark.ids from hlater)
    exact List.mem_flatMap.2 ⟨mark, List.mem_append_right _ (hrest.subset hmark), hid⟩
  have hbefore := h (first ++ left) id (right ++ rest) (by simp)
  have hsplit : (first ++ (left ++ .refers id :: right ++ rest)).flatMap Mark.ids =
      (first ++ left).flatMap Mark.ids ++ (right ++ rest).flatMap Mark.ids := by
    simp [Mark.ids]
  rw [hsplit] at hdistinct
  exact (List.nodup_append.1 hdistinct).2.2 id hbefore id hbehind rfl

end LeadBack

end Exemplar
