import Exemplar.Proofs.Length.Targets

/-!
# Trees that fit their targets

Sizing a tree for any target keeps its least length: the least lengths of the parts, of the
shortest option and of the copies stay, and a backreference gets the extent of its group as it was
sized (`minLength_sized`). A tree whose bound does not exceed the target is left as it is, with its
groups and backreferences (`sized_of_isWithin`).

Both need backreferences that have the extents of their groups.
-/

namespace Exemplar

open List (Forall₂)

/-- The extents in the plan are related to those that are expected for their groups. -/
def SizingPlan.Meets (related : Extent → Extent → Prop) (expected : GroupId → Extent → Prop)
    (plan : SizingPlan) : Prop :=
  ∀ ⦃id noted extent⦄, plan.group? id = some noted → expected id extent →
    related noted extent

/-- A plan without groups meets what is expected. -/
theorem SizingPlan.meets_empty (related : Extent → Extent → Prop)
    (expected : GroupId → Extent → Prop) :
    ({} : SizingPlan).Meets related expected := by
  intro id noted extent hnoted
  cases hnoted

/-- A plan meets what is expected after it takes note of a group that does. -/
theorem SizingPlan.Meets.noteGroups {related : Extent → Extent → Prop}
    {expected : GroupId → Extent → Prop} {plan : SizingPlan} (h : plan.Meets related expected)
    {ids : List GroupId} {noted : Extent}
    (hnoted : ∀ id ∈ ids, ∀ extent, expected id extent → related noted extent) :
    (plan.noteGroups ids noted).Meets related expected := by
  intro id found extent hfound hexpected
  rw [group?_noteGroups] at hfound
  split at hfound
  · rename_i hid
    cases hfound
    exact hnoted id hid extent hexpected
  · exact h hfound hexpected

namespace Regex

variable {expected : GroupId → Extent → Prop} {caps : GroupId → Option Nat} {tree : Regex}
  {parts options : List Regex} {target : Nat} {plan : SizingPlan}

/-- A capturing group has the extent that is expected for it, and the extent of a backreference is
expected for its group. -/
def MeetsExpected (expected : GroupId → Extent → Prop) : Regex → Prop
  | group (.capturing number name) body =>
      ∀ id ∈ groupIds number name, ∀ extent, expected id extent → extent = body.extent
  | backref id extent => expected id extent
  | _ => True

/-- Where backreferences have the extents of their groups, their extents may be expected. -/
theorem HasMatchingReferences.meetsExpected (h : tree.HasMatchingReferences) :
    ∀ node ∈ tree.visible, node.MeetsExpected fun id extent ↦
      backref id extent ∈ tree.visible := by
  intro node hnode
  cases node with
  | group kind body =>
    cases kind with
    | capturing number name =>
      intro id hid extent hreference
      have hextent := h _ hreference _ hnode (List.contains_iff_mem.2 hid)
      exact hextent
    | plain => exact trivial
    | atomic => exact trivial
    | lookahead negated => exact trivial
    | lookbehind negated => exact trivial
  | backref id extent => exact hnode
  | empty => exact trivial
  | literal text ignoreCase => exact trivial
  | set members => exact trivial
  | sequence parts => exact trivial
  | choice options => exact trivial
  | repetition body least most mode => exact trivial

/-! ## The least length -/

/-- The least length is the expected one. -/
def SameMin (noted extent : Extent) : Prop :=
  noted.min = extent.min

/-- Sizing the tree for any target keeps its least length, and the groups get the least lengths
that are expected. -/
def KeepsMinLength (expected : GroupId → Extent → Prop) (caps : GroupId → Option Nat)
    (tree : Regex) : Prop :=
  ∀ ⦃target : Nat⦄ ⦃plan : SizingPlan⦄, plan.Meets SameMin expected →
    ((tree.resize caps target).run plan).1.minLength = tree.minLength ∧
      ((tree.resize caps target).run plan).2.Meets SameMin expected

/-- Sizing relates a tree to one of the same least length when it keeps the least length. -/
theorem KeepsMinLength.sizesTo (h : tree.KeepsMinLength expected caps) :
    SizesTo caps (fun tree result ↦ result.minLength = tree.minLength)
      (·.Meets SameMin expected) tree :=
  h

/-- Parts with the same least lengths have the same list of them. -/
theorem map_minLength_congr {results : List Regex}
    (h : Forall₂ (fun part result ↦ result.minLength = part.minLength) parts results) :
    results.map minLength = parts.map minLength := by
  induction h with
  | nil => rfl
  | cons hhead htail ih => rw [List.map_cons, List.map_cons, hhead, ih]

/-- Parts with the same least lengths have the same least length in a row. -/
theorem minLength_sequence_congr {results : List Regex}
    (h : Forall₂ (fun part result ↦ result.minLength = part.minLength) parts results) :
    (sequence results).minLength = (sequence parts).minLength := by
  have hmins := map_minLength_congr h
  have hsum (trees : List Regex) : (sequence trees).minLength =
      min (trees.map minLength).sum Size.largest := by
    rw [minLength, extent, extents_eq_map]
    refine (Extent.floorOf_eq _).trans ?_
    rw [List.map_map]
    rfl
  rw [hsum, hsum, hmins]

/-- Options have the least length of a choice when they have the least lengths of some of its
options, with the shortest one among these. -/
theorem minLength_choice_congr {kept results : List Regex}
    (h : Forall₂ (fun option result ↦ result.minLength = option.minLength) kept results)
    (hsub : ∀ option ∈ kept, option ∈ options)
    (hleast : ∀ option ∈ options, option.minLength ≤ (choice options).minLength →
      option ∈ kept) :
    (choice results).minLength = (choice options).minLength := by
  by_cases hempty : options = []
  · subst hempty
    have hkept : kept = [] := List.eq_nil_iff_forall_not_mem.2 fun option hoption ↦
      List.not_mem_nil (hsub option hoption)
    subst hkept
    rw [List.forall₂_nil_left_iff.1 h]
  · obtain ⟨shortest, hshortest, hle⟩ := exists_minLength_le hempty
    obtain ⟨result, hresult, hsame⟩ :=
      exists_of_forall₂ h.flip (hleast shortest hshortest hle)
    refine Nat.le_antisymm ?_ ?_
    · calc (choice results).minLength ≤ result.minLength := minLength_choice_le hresult
        _ = shortest.minLength := hsame
        _ ≤ (choice options).minLength := hle
    · obtain ⟨least, hmem, hleast⟩ := exists_minLength_le (List.ne_nil_of_mem hresult)
      obtain ⟨option, hoption, hsame⟩ := exists_of_forall₂ h hmem
      calc (choice options).minLength ≤ option.minLength :=
          minLength_choice_le (hsub option hoption)
        _ = least.minLength := hsame.symm
        _ ≤ (choice results).minLength := hleast

/-- Sizing keeps the least length of a tree whose groups have the extents that its backreferences
expect. -/
theorem keepsMinLength (h : ∀ node ∈ tree.visible, node.MeetsExpected expected) :
    tree.KeepsMinLength expected caps := by
  induction tree with
  | empty => exact fun target plan hplan ↦ ⟨rfl, hplan⟩
  | literal text ignoreCase => exact fun target plan hplan ↦ ⟨rfl, hplan⟩
  | set members => exact fun target plan hplan ↦ ⟨rfl, hplan⟩
  | sequence parts ih =>
    rw [forall_visible_sequence] at h
    intro target plan hplan
    obtain ⟨hmins, hafter⟩ := resizeParts_related
      (fun part hpart ↦ (ih part hpart (h.2 part hpart)).sizesTo)
        (length_splitTarget_extents ..) hplan
    exact ⟨minLength_sequence_congr hmins, hafter⟩
  | choice options ih =>
    rw [forall_visible_choice] at h
    intro target plan hplan
    obtain ⟨hmins, hafter⟩ := resizeOptions_related
      (fun option hoption ↦ (ih option hoption (h.2 option hoption)).sizesTo)
      (max target (choice options).minLength) target hplan
    refine ⟨minLength_choice_congr hmins
      (fun option hoption ↦ (List.mem_filter.1 hoption).1) ?_, hafter⟩
    intro option hoption hle
    have hreach := Nat.le_trans hle (Nat.le_max_right target _)
    exact List.mem_filter.2 ⟨hoption, by simpa using hreach⟩
  | repetition body least most mode ih =>
    rw [forall_visible_repetition] at h
    intro target plan hplan
    obtain ⟨hmin, hafter⟩ := ih h.2 hplan
    refine ⟨?_, hafter⟩
    show min (_ * least) Size.largest = min (body.extent.min * least) Size.largest
    exact congrArg (fun each ↦ min (each * least) Size.largest) hmin
  | group kind body ih =>
    rw [forall_visible_group] at h
    have hbody (hkind : kind.isLookaround = false) : body.KeepsMinLength expected caps :=
      ih (h.2 hkind)
    cases kind with
    | capturing number name =>
      intro target plan hplan
      have hinside := hbody rfl
      obtain ⟨hmin, hafter⟩ := @hinside (groupCap caps number name target) plan hplan
      rw [resize_capturing]
      refine ⟨hmin, hafter.noteGroups fun id hid extent hexpected ↦ ?_⟩
      rw [h.1 id hid extent hexpected]
      exact hmin
    | plain => exact fun target plan hplan ↦ hbody rfl hplan
    | atomic => exact fun target plan hplan ↦ hbody rfl hplan
    | lookahead negated => exact fun target plan hplan ↦ ⟨rfl, hplan⟩
    | lookbehind negated => exact fun target plan hplan ↦ ⟨rfl, hplan⟩
  | backref id extent =>
    intro target plan hplan
    refine ⟨?_, hplan⟩
    show ((plan.group? id).getD extent).min = extent.min
    cases hnoted : plan.group? id with
    | none => rfl
    | some noted => exact hplan hnoted (h _ (mem_visible_self _))

/-- Sizing for any target keeps the least length of a tree whose backreferences have the extents of
their groups. -/
theorem minLength_sized (h : tree.HasMatchingReferences) (target : Nat) :
    (tree.sized target).minLength = tree.minLength :=
  (keepsMinLength h.meetsExpected (SizingPlan.meets_empty ..)).1

/-! ## Trees that fit -/

/-- Sizing the tree for any target that its bound does not exceed leaves it as it is, and the
groups get the extents that are expected. -/
def StaysAsItIs (expected : GroupId → Extent → Prop) (caps : GroupId → Option Nat)
    (tree : Regex) : Prop :=
  ∀ ⦃target : Nat⦄ ⦃plan : SizingPlan⦄, tree.maxLength.IsWithin target →
    plan.Meets Eq expected → ((tree.resize caps target).run plan).1 = tree ∧
      ((tree.resize caps target).run plan).2.Meets Eq expected

/-- Parts in a row stay as they are when each part does. -/
theorem resizeParts_eq (h : ∀ part ∈ parts, part.StaysAsItIs expected caps) {targets : List Nat}
    (hmax : Forall₂ (fun part target ↦ part.maxLength.IsWithin target) parts targets)
    (hplan : plan.Meets Eq expected) :
    ((resizeParts caps parts targets).run plan).1 = parts ∧
      ((resizeParts caps parts targets).run plan).2.Meets Eq expected := by
  induction hmax generalizing plan with
  | nil => exact ⟨rfl, hplan⟩
  | cons hhead htail ih =>
    obtain ⟨hpart, hparts⟩ := List.forall_mem_cons.1 h
    obtain ⟨htree, hmiddle⟩ := hpart hhead hplan
    obtain ⟨htrees, hafter⟩ := ih hparts hmiddle
    exact ⟨congrArg₂ List.cons htree htrees, hafter⟩

/-- Options that are all within reach stay as they are when each option does. -/
theorem resizeOptions_eq (h : ∀ option ∈ options, option.StaysAsItIs expected caps)
    (reach target : Nat) (hreach : ∀ option ∈ options, option.minLength ≤ reach)
    (hmax : ∀ option ∈ options, option.maxLength.IsWithin target)
    (hplan : plan.Meets Eq expected) :
    ((resizeOptions caps reach options target).run plan).1 = options ∧
      ((resizeOptions caps reach options target).run plan).2.Meets Eq expected := by
  induction options generalizing plan with
  | nil => exact ⟨rfl, hplan⟩
  | cons option options ih =>
    rw [List.forall_mem_cons] at h hreach hmax
    rw [resizeOptions, if_pos hreach.1]
    obtain ⟨htree, hmiddle⟩ := h.1 hmax.1 hplan
    obtain ⟨htrees, hafter⟩ := ih h.2 hreach.2 hmax.2 hmiddle
    exact ⟨congrArg₂ List.cons htree htrees, hafter⟩

/-- Sizing leaves a tree as it is for a target that its bound does not exceed, under caps that are
loose. -/
theorem staysAsItIs (hrepeat : ∀ node ∈ tree.visible, node.CanRepeat)
    (hvalid : ∀ node ∈ tree.visible, node.extent.Valid)
    (hloose : ∀ node ∈ tree.visible, node.IsLoose caps)
    (h : ∀ node ∈ tree.visible, node.MeetsExpected expected) :
    tree.StaysAsItIs expected caps := by
  induction tree with
  | empty => exact fun target plan hmax hplan ↦ ⟨rfl, hplan⟩
  | literal text ignoreCase => exact fun target plan hmax hplan ↦ ⟨rfl, hplan⟩
  | set members => exact fun target plan hmax hplan ↦ ⟨rfl, hplan⟩
  | sequence parts ih =>
    rw [forall_visible_sequence] at hrepeat hvalid hloose h
    have hparts : ∀ part ∈ parts, part.extent.Valid :=
      fun part hpart ↦ hvalid.2 part hpart part (mem_visible_self part)
    intro target plan hmax hplan
    obtain ⟨htrees, hafter⟩ := resizeParts_eq
      (fun part hpart ↦ ih part hpart (hrepeat.2 part hpart) (hvalid.2 part hpart)
        (hloose.2 part hpart) (h.2 part hpart))
      (isWithin_splitTarget hparts hmax) hplan
    exact ⟨congrArg sequence htrees, hafter⟩
  | choice options ih =>
    rw [forall_visible_choice] at hrepeat hvalid hloose h
    intro target plan hmax hplan
    obtain ⟨htrees, hafter⟩ := resizeOptions_eq
      (fun option hoption ↦ ih option hoption (hrepeat.2 option hoption) (hvalid.2 option hoption)
        (hloose.2 option hoption) (h.2 option hoption))
      (max target (choice options).minLength) target
      (minLength_le_reach
        (fun option hoption ↦ hvalid.2 option hoption option (mem_visible_self option)) hmax)
      (fun option ↦ isWithin_of_choice hmax) hplan
    exact ⟨congrArg choice htrees, hafter⟩
  | repetition body least most mode ih =>
    rw [forall_visible_repetition] at hrepeat hvalid hloose h
    intro target plan hmax hplan
    have hcopy := Extent.isWithin_copy (hrepeat.1.1.mono (Nat.le_max_right ..)) hmax
    obtain ⟨htree, hafter⟩ := ih hrepeat.2 hvalid.2 hloose.2 h.2 hcopy hplan
    rw [resize_repetition (Extent.fitRepetition_of_isWithin least hmax)]
    refine ⟨?_, hafter⟩
    -- The bound allows the least count, so it is not raised.
    rw [htree, repeated, Bound.raise_of_allows (hrepeat.1.1.mono (Nat.le_max_left ..))]
  | group kind body ih =>
    rw [forall_visible_group] at hrepeat hvalid hloose h
    have hbody (hkind : kind.isLookaround = false) : body.StaysAsItIs expected caps :=
      ih (hrepeat.2 hkind) (hvalid.2 hkind) (hloose.2 hkind) (h.2 hkind)
    cases kind with
    | capturing number name =>
      intro target plan hmax hplan
      obtain ⟨htree, hafter⟩ := hbody rfl (isWithin_groupCap hmax hloose.1) hplan
      rw [resize_capturing, htree]
      exact ⟨rfl, hafter.noteGroups fun id hid extent hexpected ↦
        (h.1 id hid extent hexpected).symm⟩
    | plain =>
      intro target plan hmax hplan
      obtain ⟨htree, hafter⟩ := hbody rfl hmax hplan
      exact ⟨congrArg (group .plain) htree, hafter⟩
    | atomic =>
      intro target plan hmax hplan
      obtain ⟨htree, hafter⟩ := hbody rfl hmax hplan
      exact ⟨congrArg (group .atomic) htree, hafter⟩
    | lookahead negated => exact fun target plan hmax hplan ↦ ⟨rfl, hplan⟩
    | lookbehind negated => exact fun target plan hmax hplan ↦ ⟨rfl, hplan⟩
  | backref id extent =>
    intro target plan hmax hplan
    refine ⟨?_, hplan⟩
    show backref id ((plan.group? id).getD extent) = backref id extent
    cases hnoted : plan.group? id with
    | none => rfl
    | some noted => exact congrArg (backref id) (hplan hnoted (h _ (mem_visible_self _)))

/-- A tree whose backreferences have the extents of their groups is left as it is when it is sized
for a target that its bound does not exceed. -/
theorem sized_of_isWithin {sizes : GroupId → Extent}
    (hrepeat : ∀ node ∈ tree.visible, node.CanRepeat)
    (hvalid : ∀ node ∈ tree.visible, node.extent.Valid)
    (hmeasured : ∀ node ∈ tree.visible, node.IsMeasured sizes) (h : tree.HasMatchingReferences)
    (hmax : tree.maxLength.IsWithin target) : tree.sized target = tree :=
  (staysAsItIs hrepeat hvalid (isLoose_of_isWithin hrepeat hvalid hmeasured hmax)
    h.meetsExpected hmax (SizingPlan.meets_empty ..)).1

end Regex

end Exemplar
