import Exemplar.Proofs.Grammar.Certainty
import Exemplar.Proofs.Grammar.Numbering
import Exemplar.Proofs.Grammar.Records
import Mathlib.Data.List.Nodup

/-!
# References lead back

A reference is only read behind the end of its group. So in the marks that were read every
reference leads back to a group, and so do the groups on record (`Reading.LeadsBack`). Every step
keeps this (`LeadsBack.of_moves`), and references lead back in the tree that was read
(`leadBack_of_run`). What is left of the tree is in the same order, so references lead back in it
as far as their groups are left too (`Regex.leadBack_simplify_of_parse`).
-/

namespace Exemplar

namespace Groups

/-- What the record owes to the mark of a tree that fits: a group has its name, and a reference
leads to a group on record. -/
def Has (groups : Groups) : Mark → Prop
  | .opens number name => groups.Names number name
  | .closes number name => groups.Names number name
  | .refers id => ∃ number extent, groups.number? id = some number ∧
      groups.closed.lookup number = some extent

/-- The record has the marks at both ends of a group that fits. -/
theorem has_of_fits_group {groups : Groups} {kind : GroupKind} {body : Regex}
    (h : groups.Fits (.group kind body)) :
    (∀ mark ∈ kind.opening, groups.Has mark) ∧ ∀ mark ∈ kind.closing,
    groups.Has mark := by
  cases kind with
  | capturing number name =>
    exact ⟨List.forall_mem_singleton.2 h.1, List.forall_mem_singleton.2 h.1⟩
  | plain => exact ⟨List.forall_mem_nil _, List.forall_mem_nil _⟩
  | atomic => exact ⟨List.forall_mem_nil _, List.forall_mem_nil _⟩
  | lookahead negated => exact ⟨List.forall_mem_nil _, List.forall_mem_nil _⟩
  | lookbehind negated => exact ⟨List.forall_mem_nil _, List.forall_mem_nil _⟩

/-- The record has the marks of a tree that fits. -/
theorem has_of_fits {groups : Groups} {tree : Regex} (h : tree.Everywhere groups.Fits) :
    ∀ mark ∈ tree.marks, groups.Has mark := by
  induction tree with
  | empty => exact List.forall_mem_nil _
  | literal text ignoreCase => exact List.forall_mem_nil _
  | set members => exact List.forall_mem_nil _
  | sequence parts ih =>
    have hparts := (Regex.everywhere_sequence.1 h).2
    rw [Regex.marks_sequence]
    intro mark hmark
    obtain ⟨part, hpart, hmark⟩ := List.mem_flatMap.1 hmark
    exact ih part hpart (hparts part hpart) mark hmark
  | choice options ih =>
    have hoptions := (Regex.everywhere_choice.1 h).2
    rw [Regex.marks_choice]
    intro mark hmark
    obtain ⟨option, hoption, hmark⟩ := List.mem_flatMap.1 hmark
    exact ih option hoption (hoptions option hoption) mark hmark
  | repetition body least most mode ih => exact ih (Regex.everywhere_repetition.1 h).2
  | group kind body ih =>
    obtain ⟨hkind, hbody⟩ := Regex.everywhere_group.1 h
    rw [Regex.marks_group]
    obtain ⟨hopening, hclosing⟩ := has_of_fits_group hkind
    exact List.forall_mem_append.2 ⟨List.forall_mem_append.2 ⟨hopening, ih hbody⟩, hclosing⟩
  | backref id extent =>
    obtain ⟨number, hnumber, hextent⟩ := (h : groups.Fits (.backref id extent))
    exact List.forall_mem_singleton.2 ⟨number, extent, hnumber, hextent⟩

/-- An extent on record behind a group is that of the group or was on record before. -/
theorem lookup_closed_close {groups : Groups} {kind : GroupKind} {extent found : Extent}
    {number : Nat} (h : (groups.close kind extent).closed.lookup number = some found) :
    groups.closed.lookup number = some found ∨ ∃ name, kind = .capturing number name := by
  unfold close at h
  split at h
  · rename_i closing name
    by_cases hnumber : number = closing
    · exact .inr ⟨name, hnumber ▸ rfl⟩
    · rw [lookup_cons_of_ne hnumber] at h
      exact .inl h
  · exact .inl h

/-- Groups with different numbers answer to different references. -/
theorem nodup_ids {groups : Groups} {marks : List Mark} (hhas : ∀ mark ∈ marks, groups.Has mark)
    (hdistinct : (marks.filterMap Mark.closed?).Nodup) : (marks.flatMap Mark.ids).Nodup := by
  rw [List.nodup_flatMap]
  refine ⟨fun mark _ ↦ ?_, ?_⟩
  · cases mark with
    | opens number name => exact .nil
    | closes number name => cases name <;> simp [Mark.ids, groupIds]
    | refers id => exact .nil
  · refine (List.pairwise_filterMap.1 hdistinct).imp_of_mem
      fun {mark other} hmark hother hne ↦ ?_
    intro id hid hid'
    cases mark with
    | opens number name => cases hid
    | refers other => cases hid
    | closes number name =>
      cases other with
      | opens number name => cases hid'
      | refers other => cases hid'
      | closes number' name' =>
        have hnumber := (hhas _ hmark : groups.Names number name).number?_eq hid
        have hnumber' := (hhas _ hother : groups.Names number' name').number?_eq hid'
        exact hne number rfl number' rfl (Option.some.inj (hnumber.symm.trans hnumber'))

end Groups

namespace Reading

/-- References lead back, and the groups on record are among those that ended. -/
structure LeadsBack (reading : Reading) : Prop where
  leadBack : LeadBack reading.marks
  closed {number : Nat} {extent : Extent} : reading.groups.closed.lookup number = some extent →
    ∃ name, reading.groups.Names number name ∧ .closes number name ∈ reading.marks

namespace LeadsBack

variable {reading next : Reading}

/-- Nothing was read at the start. -/
theorem start (pattern : List Char) (flags : Flags) : (Reading.start pattern flags).LeadsBack where
  leadBack before id after h := by cases before <;> cases h
  closed h := by cases h

/-- A reference to a group on record leads back. -/
theorem mem_ids (h : reading.LeadsBack) {id : GroupId} (hid : reading.groups.Has (.refers id)) :
    id ∈ reading.marks.flatMap Mark.ids := by
  obtain ⟨number, extent, hnumber, hextent⟩ := hid
  obtain ⟨name, hnames, hmark⟩ := h.closed hextent
  exact List.mem_flatMap.2 ⟨_, hmark, hnames.number?_eq_iff.1 hnumber⟩

/-- References lead back behind more marks, if the references among these lead to groups on record
and the groups that are new on record end there. -/
theorem of_grows (h : reading.LeadsBack) (hgrows : reading.groups.Grows next.groups)
    {added : List Mark} (hmarks : next.marks = reading.marks ++ added)
    (hrefers : ∀ id, .refers id ∈ added → reading.groups.Has (.refers id))
    (hclosed : ∀ {number extent}, next.groups.closed.lookup number = some extent →
      reading.groups.closed.lookup number = some extent ∨
        ∃ name, next.groups.Names number name ∧ .closes number name ∈ added) :
    next.LeadsBack where
  leadBack := hmarks ▸ h.leadBack.append fun id hid ↦ h.mem_ids (hrefers id hid)
  closed hlookup := by
    rw [hmarks]
    rcases hclosed hlookup with hold | ⟨name, hname, hmark⟩
    · obtain ⟨name, hname, hmark⟩ := h.closed hold
      exact ⟨name, hname.grows hgrows, List.mem_append_left _ hmark⟩
    · exact ⟨name, hname, List.mem_append_right _ hmark⟩

/-- Whatever a step does, references lead back. -/
theorem of_moves (h : reading.LeadsBack) (hsound : reading.Sound) (hnext : next.Sound)
    (hmoves : reading.Moves next) : next.LeadsBack := by
  cases hmoves with
  | @add unit unit' groups cursor hgroups hunit hcount hnames hclosed =>
    have hnumber (id : GroupId) : groups.number? id = reading.groups.number? id := by
      cases id with
      | index number => rfl
      | name name => rw [Groups.number?, Groups.number?, hnames]
    have hhas := Groups.has_of_fits (hnext.level.units unit' List.mem_cons_self)
    refine h.of_grows (.of_eq hcount hnames hclosed) (marks_addUnit reading unit' groups cursor)
      (fun id hid ↦ ?_) fun hlookup ↦ .inl (hclosed ▸ hlookup)
    obtain ⟨number, extent, hid, hextent⟩ := hhas _ hid
    exact ⟨number, extent, (hnumber id).symm.trans hid, hclosed ▸ hextent⟩
  | @branch cursor =>
    have hmarks : ({ reading with cursor, level := reading.level.nextBranch } : Reading).marks =
        reading.marks := congrArg (_ ++ ·) reading.level.marks_nextBranch
    exact ⟨hmarks ▸ h.leadBack, fun hlookup ↦ hmarks ▸ h.closed hlookup⟩
  | @enter kind start flags cursor hkind =>
    exact h.of_grows (.of_eq rfl rfl rfl) (marks_enter reading kind start cursor)
      (fun id hid ↦ absurd hid (kind.refers_notMem_opening id)) .inl
  | @capture name kind groups start cursor hopen =>
    exact h.of_grows (.openCapture hopen) (marks_enter { reading with groups } kind start cursor)
      (fun id hid ↦ absurd hid (kind.refers_notMem_opening id))
      fun hlookup ↦ .inl (Groups.closed_openCapture hopen ▸ hlookup)
  | switch => exact ⟨h.leadBack, h.closed⟩
  | @close frame frames unit' cursor hframes hunit =>
    have hopen := hsound.frames frame (hframes ▸ List.mem_cons_self)
    have hgrows : reading.groups.Grows
        (reading.groups.close frame.kind reading.level.tree.extent) :=
      .close _ fun number name hkind ↦ hopen.lookup_closed (Frame.number?_eq hkind)
    refine h.of_grows hgrows (marks_closeGroup hframes hunit _ _ cursor)
      (fun id hid ↦ absurd hid (frame.kind.refers_notMem_closing id)) fun hlookup ↦ ?_
    refine (Groups.lookup_closed_close hlookup).imp_right ?_
    -- The group that is closed has its name since it was opened.
    rintro ⟨name, hkind⟩
    exact ⟨name, (hopen.names hkind).grows hgrows, hkind ▸ List.mem_singleton_self _⟩

end LeadsBack

/-- References lead back in a tree that was read. -/
theorem leadBack_of_run {pattern : List Char} {flags : Flags} {tree : Regex} {groups : Groups}
    (hrun : (Reading.start pattern flags).run = .ok (tree, groups)) : LeadBack tree.marks := by
  obtain ⟨last, ⟨hlast, -⟩, hframes, rfl, -⟩ := exists_last_of_run
    (fun reading ↦ reading.LeadsBack ∧ reading.Sound)
    (fun h hadvance ↦
      ⟨h.1.of_moves h.2 (h.2.advance hadvance) (moves_of_advance hadvance),
      h.2.advance hadvance⟩)
    ⟨.start pattern flags, .start pattern flags⟩ hrun
  rw [← marks_of_frames hframes]
  exact hlast.leadBack

end Reading

namespace Regex

/-! ## Groups that are needed -/

/-- A sequence has the groups of its parts. -/
theorem definedIds_sequence (parts : List Regex) :
    (sequence parts).definedIds = parts.flatMap definedIds := by
  rw [definedIds, marks_sequence, List.flatMap_assoc]
  rfl

/-- A choice has the groups of its options. -/
theorem definedIds_choice (options : List Regex) :
    (choice options).definedIds = options.flatMap definedIds := by
  rw [definedIds, marks_choice, List.flatMap_assoc]
  rfl

/-- A group has the groups of its body. -/
theorem definedIds_subset_group (kind : GroupKind) (body : Regex) :
    body.definedIds ⊆ (group kind body).definedIds := by
  rw [definedIds, definedIds, marks_group, List.flatMap_append, List.flatMap_append]
  exact List.Subset.trans (List.subset_append_right ..) (List.subset_append_left ..)

/-- A capturing group is one of its own groups. -/
theorem definedIds_subset_capturing (number : Nat) (name : Option String) (body : Regex) :
    groupIds number name ⊆ (group (.capturing number name) body).definedIds := by
  rw [definedIds, marks_group, List.flatMap_append]
  exact fun id hid ↦ List.mem_append_right _
    (List.mem_flatMap.2 ⟨_, List.mem_singleton_self _, hid⟩)

/-- The groups that have certainly captured behind a tree are groups of the tree. -/
theorem certain_subset_definedIds (tree : Regex) : tree.certainty.certain ⊆ tree.definedIds := by
  induction tree with
  | empty => exact List.nil_subset _
  | literal text ignoreCase => exact List.nil_subset _
  | set members => exact List.nil_subset _
  | sequence parts ih =>
    rw [definedIds_sequence, certainty, summarize, summarizeAll_eq_map]
    induction parts with
    | nil => exact List.nil_subset _
    | cons part parts ihparts =>
      have hrest := ihparts fun other hother ↦ ih other (List.mem_cons_of_mem _ hother)
      exact List.append_subset.2
        ⟨List.Subset.trans (ih part (by simp)) (List.subset_append_left ..),
        List.Subset.trans hrest (List.subset_append_right ..)⟩
  | choice options ih =>
    rw [definedIds_choice, certainty, summarize, summarizeAll_eq_map]
    cases options with
    | nil => exact List.nil_subset _
    | cons option options =>
      have hfirst : option.certainty.certain ⊆ (option :: options).flatMap definedIds :=
        List.Subset.trans (ih option (by simp)) (List.subset_append_left ..)
      cases options with
      | nil => exact hfirst
      | cons next options => exact List.Subset.trans (List.filter_subset_self _) hfirst
  | repetition body least most mode ih =>
    have hcertain : (repetition body least most mode).certainty.certain =
        if least = 0 then [] else body.certainty.certain := rfl
    rw [hcertain]
    split
    · exact List.nil_subset _
    · exact ih
  | group kind body ih =>
    cases kind with
    | capturing number name =>
      exact List.append_subset.2 ⟨definedIds_subset_capturing number name body,
        List.Subset.trans ih (definedIds_subset_group _ body)⟩
    | plain => exact List.Subset.trans ih (definedIds_subset_group _ body)
    | atomic => exact List.Subset.trans ih (definedIds_subset_group _ body)
    | lookahead negated => exact List.nil_subset _
    | lookbehind negated => exact List.nil_subset _
  | backref id extent => exact List.nil_subset _

/-- The references inside assertions. -/
def assertedIds (tree : Regex) : List GroupId :=
  tree.visible.flatMap fun
    | group kind body => if kind.isLookaround then body.referenceIds else []
    | _ => []

/-- The references inside assertions of a part are among those of the tree. -/
theorem assertedIds_subset {part tree : Regex}
    (h : ∀ node ∈ part.visible, node ∈ tree.visible) :
    part.assertedIds ⊆ tree.assertedIds := by
  intro id hid
  obtain ⟨node, hnode, hid⟩ := List.mem_flatMap.1 hid
  exact List.mem_flatMap.2 ⟨node, h node hnode, hid⟩

/-- The references in a part outside of assertions are among those of the tree. -/
theorem referenceIds_subset_of_visible {tree node : Regex} (h : node ∈ tree.visible) :
    node.referenceIds ⊆ tree.referenceIds := by
  have hlist {trees : List Regex} {tree : Regex} (h : tree ∈ trees) :
      tree.referenceIds ⊆ trees.flatMap referenceIds :=
    fun id hid ↦ List.mem_flatMap.2 ⟨tree, h, hid⟩
  induction tree with
  | empty => cases List.mem_singleton.1 h; exact List.Subset.refl _
  | literal text ignoreCase => cases List.mem_singleton.1 h; exact List.Subset.refl _
  | set members => cases List.mem_singleton.1 h; exact List.Subset.refl _
  | sequence parts ih =>
    rcases mem_visible_sequence.1 h with rfl | ⟨part, hpart, h⟩
    · exact List.Subset.refl _
    · rw [referenceIds_sequence]
      exact List.Subset.trans (ih part hpart h) (hlist hpart)
  | choice options ih =>
    rcases mem_visible_choice.1 h with rfl | ⟨option, hoption, h⟩
    · exact List.Subset.refl _
    · rw [referenceIds_choice]
      exact List.Subset.trans (ih option hoption h) (hlist hoption)
  | repetition body least most mode ih =>
    rcases mem_visible_repetition.1 h with rfl | h
    · exact List.Subset.refl _
    · exact ih h
  | group kind body ih =>
    rcases mem_visible_group.1 h with rfl | ⟨-, h⟩
    · exact List.Subset.refl _
    · rw [referenceIds_group]
      exact ih h
  | backref id extent => cases List.mem_singleton.1 h; exact List.Subset.refl _

/-- The references inside assertions are some of all references. -/
theorem assertedIds_subset_referenceIds (tree : Regex) :
    tree.assertedIds ⊆ tree.referenceIds := by
  intro id hid
  obtain ⟨node, hnode, hid⟩ := List.mem_flatMap.1 hid
  refine referenceIds_subset_of_visible hnode ?_
  split at hid
  · rename_i kind body
    split at hid
    · rwa [referenceIds_group]
    · cases hid
  · cases hid

/-- What a part needs is needed in front of the sequence, or the parts before capture it. -/
theorem mem_needed_sequence {parts : List Regex} {part : Regex} {id : GroupId}
    (hpart : part ∈ parts) (h : id ∈ part.certainty.needed) :
    id ∈ (sequence parts).certainty.needed ∨ id ∈ (sequence parts).definedIds := by
  rw [definedIds_sequence, certainty, summarize, summarizeAll_eq_map]
  induction parts with
  | nil => cases hpart
  | cons first parts ih =>
    rcases List.mem_cons.1 hpart with rfl | hpart
    · exact .inl (List.mem_append_left _ h)
    · rcases ih hpart with hlater | hgroup
      · by_cases hcertain : id ∈ first.certainty.certain
        · exact .inr (List.mem_append_left _ (certain_subset_definedIds first hcertain))
        · exact .inl
            (List.mem_append_right _ (List.mem_filter.2 ⟨hlater, decide_eq_true hcertain⟩))
      · exact .inr (List.mem_append_right _ hgroup)

/-- What an option needs is needed in front of the choice. -/
theorem mem_needed_choice {options : List Regex} {option : Regex} {id : GroupId}
    (hoption : option ∈ options) (h : id ∈ option.certainty.needed) :
    id ∈ (choice options).certainty.needed := by
  rw [certainty, summarize, summarizeAll_eq_map]
  induction options with
  | nil => cases hoption
  | cons first options ih =>
    cases options with
    | nil =>
      cases List.mem_singleton.1 hoption
      exact h
    | cons next options =>
      rcases List.mem_cons.1 hoption with rfl | hoption
      · exact List.mem_append_left _ h
      · exact List.mem_append_right _ (ih hoption)

/-- What a body needs is needed in front of a group that is no assertion. -/
theorem mem_needed_group {kind : GroupKind} {body : Regex} {id : GroupId}
    (hkind : kind.isLookaround = false) (h : id ∈ body.certainty.needed) :
    id ∈ (group kind body).certainty.needed := by
  cases kind with
  | capturing number name => exact h
  | plain => exact h
  | atomic => exact h
  | lookahead negated => cases hkind
  | lookbehind negated => cases hkind

/-- A reference leads to a group that is needed in front of the tree or to one in it, or it is
inside an assertion. -/
theorem mem_needed_or_definedIds {tree : Regex} {id : GroupId} (h : id ∈ tree.referenceIds) :
    id ∈ tree.certainty.needed ∨ id ∈ tree.definedIds ∨ id ∈ tree.assertedIds := by
  induction tree with
  | empty => cases h
  | literal text ignoreCase => cases h
  | set members => cases h
  | sequence parts ih =>
    rw [referenceIds_sequence] at h
    obtain ⟨part, hpart, hid⟩ := List.mem_flatMap.1 h
    rcases ih part hpart hid with hneeded | hgroup | hasserted
    · exact (mem_needed_sequence hpart hneeded).imp_right .inl
    · rw [definedIds_sequence]
      exact .inr (.inl (List.mem_flatMap.2 ⟨part, hpart, hgroup⟩))
    · exact .inr (.inr (assertedIds_subset
        (fun node hnode ↦ mem_visible_sequence.2 (.inr ⟨part, hpart, hnode⟩)) hasserted))
  | choice options ih =>
    rw [referenceIds_choice] at h
    obtain ⟨option, hoption, hid⟩ := List.mem_flatMap.1 h
    rcases ih option hoption hid with hneeded | hgroup | hasserted
    · exact .inl (mem_needed_choice hoption hneeded)
    · rw [definedIds_choice]
      exact .inr (.inl (List.mem_flatMap.2 ⟨option, hoption, hgroup⟩))
    · exact .inr (.inr (assertedIds_subset
        (fun node hnode ↦ mem_visible_choice.2 (.inr ⟨option, hoption, hnode⟩)) hasserted))
  | repetition body least most mode ih =>
    rcases ih h with hneeded | hgroup | hasserted
    · exact .inl hneeded
    · exact .inr (.inl hgroup)
    · exact .inr
        (.inr
          (assertedIds_subset (fun node hnode ↦ mem_visible_repetition.2 (.inr hnode)) hasserted))
  | group kind body ih =>
    rw [referenceIds_group] at h
    cases hkind : kind.isLookaround with
    | true =>
      exact .inr
        (.inr
          (List.mem_flatMap.2 ⟨_, mem_visible_self _, by simpa only [if_pos hkind] using h⟩))
    | false =>
      rcases ih h with hneeded | hgroup | hasserted
      · exact .inl (mem_needed_group hkind hneeded)
      · exact .inr (.inl (definedIds_subset_group kind body hgroup))
      · exact .inr (.inr (assertedIds_subset
          (fun node hnode ↦ mem_visible_group.2 (.inr ⟨hkind, hnode⟩)) hasserted))
  | backref other extent => exact .inl h

/-- References lead back in what is left of a tree that was read. For those inside assertions their
groups have to be left too. -/
theorem leadBack_simplify_of_parse {pattern : List Char} {flags : Flags} {tree : Regex}
    (h : parse pattern flags = .ok tree)
    (hleft : ∀ id ∈ tree.simplify.assertedIds, id ∈ tree.simplify.definedIds) :
    LeadBack tree.simplify.marks := by
  have hgroups : ∀ id ∈ tree.simplify.referenceIds, id ∈ tree.simplify.definedIds := by
    intro id hid
    rcases mem_needed_or_definedIds hid with hneeded | hgroup | hasserted
    · rw [needed_simplify_of_parse h] at hneeded
      cases hneeded
    · exact hgroup
    · exact hleft id hasserted
  rcases parse_eq_ok h with rfl | ⟨read, groups, hrun, -, hprune⟩
  · have hmarks : (ofText pattern flags.ignoreCase).simplify.marks = [] := by cases pattern <;> rfl
    rw [hmarks]
    intro before id after heq
    cases before <;> cases heq
  · have hread := (Reading.Sound.start pattern flags).run hrun
    have hwell := groups.stable_fits.wellFormed hread
    have hpruned := groups.stable_fits.wellFormed (groups.stable_fits.prune hread hprune).1
    have hsublist := (summarize_simplify_le Mark.lawful_summary hpruned).trans
      (summarize_prune_le Mark.lawful_summary hwell hprune)
    have hdistinct : (read.marks.filterMap Mark.closed?).Nodup := by
      rw [(filterMap_closed_marks_perm read).nodup_iff, Reading.groupNumbers_of_run hrun]
      exact List.nodup_range'
    refine (Reading.leadBack_of_run hrun).of_sublist hsublist
      (Groups.nodup_ids (Groups.has_of_fits hread) hdistinct) fun id hid ↦ hgroups id ?_
    exact List.mem_filterMap.2 ⟨_, hid, rfl⟩

end Regex

end Exemplar
