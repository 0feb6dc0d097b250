import Exemplar.Proofs.Length.Sized
import Exemplar.Proofs.Regex.Numbers

/-!
# Sized trees are measured

In a sized tree a backreference has the extent that the plan had for its group when the
backreference was sized. If the groups of the tree have different numbers, no group is sized a
second time, so this is the extent of the sized group: the sized tree is measured by the extents
that the plan has in the end (`exists_isMeasured_sized`).
-/

namespace Exemplar

open List (Forall₂)

namespace SizingPlan

/-- The plan has no extents for groups of the given numbers. -/
def Lacks (plan : SizingPlan) (numberOf : GroupId → Option Nat) (numbers : List Nat) : Prop :=
  ∀ ⦃id number⦄, numberOf id = some number → number ∈ numbers → plan.group? id = none

/-- The extents in the plan are the given ones. -/
def Describes (plan : SizingPlan) (sizes : GroupId → Extent) : Prop :=
  ∀ ⦃id extent⦄, plan.group? id = some extent → sizes id = extent

/-- A group with an extent in the plan has none of the numbers for which there are no extents. -/
theorem Lacks.ne_of_eq_some {plan : SizingPlan} {numberOf : GroupId → Option Nat}
    {numbers : List Nat} (h : plan.Lacks numberOf numbers) {id : GroupId} {extent : Extent}
    (hsome : plan.group? id = some extent) :
    ∀ number ∈ numbers, numberOf id ≠ some number := by
  intro number hmem hnumber
  rw [h hnumber hmem] at hsome
  cases hsome

/-- A plan without extents for groups of the given numbers has none for those of fewer numbers. -/
theorem Lacks.of_subset {plan : SizingPlan} {numberOf : GroupId → Option Nat}
    {fewer numbers : List Nat} (h : plan.Lacks numberOf numbers) (hsubset : fewer ⊆ numbers) :
    plan.Lacks numberOf fewer :=
  fun _ _ hid hmem ↦ h hid (hsubset hmem)

end SizingPlan

namespace Regex

variable {numberOf : GroupId → Option Nat} {caps : GroupId → Option Nat} {tree body : Regex}
  {parts options : List Regex} {plan : SizingPlan} {id : GroupId}

/-- All references to a group lead to its number. -/
def IsNumbered (numberOf : GroupId → Option Nat) : Regex → Prop
  | group (.capturing number name) _ => ∀ id ∈ groupIds number name, numberOf id = some number
  | _ => True

/-! ## Groups elsewhere -/

/-- Sizing the tree leaves the extent of a group as it is. -/
def KeepsGroup (caps : GroupId → Option Nat) (id : GroupId) (tree : Regex) : Prop :=
  ∀ target plan, ((tree.resize caps target).run plan).2.group? id = plan.group? id

/-- Sizing parts in a row leaves the extent of a group as it is when sizing each part does. -/
theorem group?_resizeParts (h : ∀ part ∈ parts, KeepsGroup caps id part) (targets : List Nat)
    (plan : SizingPlan) :
    ((resizeParts caps parts targets).run plan).2.group? id = plan.group? id := by
  induction parts generalizing targets plan with
  | nil => rfl
  | cons part parts ih =>
    obtain ⟨hpart, hparts⟩ := List.forall_mem_cons.1 h
    cases targets with
    | nil => rfl
    | cons target targets => exact (ih hparts targets _).trans (hpart target plan)

/-- Sizing options leaves the extent of a group as it is when sizing each option does. -/
theorem group?_resizeOptions (h : ∀ option ∈ options, KeepsGroup caps id option)
    (reach target : Nat) (plan : SizingPlan) :
    ((resizeOptions caps reach options target).run plan).2.group? id = plan.group? id := by
  induction options generalizing plan with
  | nil => rfl
  | cons option options ih =>
    obtain ⟨hoption, hoptions⟩ := List.forall_mem_cons.1 h
    rw [resizeOptions]
    split
    · exact (ih hoptions _).trans (hoption target plan)
    · exact ih hoptions plan

/-- Sizing a tree leaves the extents of groups as they are that have other numbers than those in the
tree. -/
theorem keepsGroup (hnumbered : ∀ node ∈ tree.visible, node.IsNumbered numberOf)
    (hid : ∀ number ∈ tree.groupNumbers, numberOf id ≠ some number) :
    KeepsGroup caps id tree := by
  induction tree with
  | empty => exact fun target plan ↦ rfl
  | literal text ignoreCase => exact fun target plan ↦ rfl
  | set members => exact fun target plan ↦ rfl
  | sequence parts ih =>
    rw [forall_visible_sequence] at hnumbered
    refine fun target plan ↦ group?_resizeParts (fun part hpart ↦ ?_) _ plan
    exact ih part hpart (hnumbered.2 part hpart)
      fun number hnumber ↦ hid number ((groupNumbers_sublist_of_mem hpart).mem hnumber)
  | choice options ih =>
    rw [forall_visible_choice] at hnumbered
    refine fun target plan ↦ group?_resizeOptions (fun option hoption ↦ ?_) _ target plan
    exact ih option hoption (hnumbered.2 option hoption)
      fun number hnumber ↦ hid number ((groupNumbers_sublist_of_mem hoption).mem hnumber)
  | repetition body least most mode ih =>
    rw [forall_visible_repetition] at hnumbered
    exact fun target plan ↦ ih hnumbered.2 hid _ plan
  | group kind body ih =>
    rw [forall_visible_group] at hnumbered
    have hbody (hkind : kind.isLookaround = false) : KeepsGroup caps id body :=
      ih (hnumbered.2 hkind) fun number hnumber ↦ hid number (List.mem_append_right _ hnumber)
    cases kind with
    | capturing number name =>
      intro target plan
      rw [resize_capturing, SizingPlan.group?_noteGroups, if_neg]
      · exact hbody rfl _ plan
      · exact fun hmem ↦ hid number (List.mem_cons_self ..) (hnumbered.1 id hmem)
    | plain => exact hbody rfl
    | atomic => exact hbody rfl
    | lookahead negated => exact fun target plan ↦ rfl
    | lookbehind negated => exact fun target plan ↦ rfl
  | backref other extent => exact fun target plan ↦ rfl

/-- A group with an extent in the plan keeps it in trees with other numbers. -/
theorem keepsGroup_of_lacks {trees : List Regex}
    (hnumbered : ∀ tree ∈ trees, ∀ node ∈ tree.visible, node.IsNumbered numberOf)
    (hlacks : plan.Lacks numberOf (groupNumbersOfAll trees)) {extent : Extent}
    (hsome : plan.group? id = some extent) : ∀ tree ∈ trees, KeepsGroup caps id tree := by
  intro tree htree
  refine keepsGroup (hnumbered tree htree) fun number hnumber ↦
    hlacks.ne_of_eq_some hsome number ?_
  exact (groupNumbers_sublist_of_mem htree).mem hnumber

/-- Behind a tree the plan lacks the numbers that it lacked and that are not in the tree. -/
theorem lacks_resize (hnumbered : ∀ node ∈ tree.visible, node.IsNumbered numberOf)
    {rest : List Nat} (h : plan.Lacks numberOf (tree.groupNumbers ++ rest))
    (hnodup : (tree.groupNumbers ++ rest).Nodup) (target : Nat) :
    ((tree.resize caps target).run plan).2.Lacks numberOf rest := by
  intro id number hid hmem
  have hother : ∀ other ∈ tree.groupNumbers, numberOf id ≠ some other := by
    intro other hother heq
    rw [hid] at heq
    cases heq
    exact (List.nodup_append.1 hnodup).2.2 number hother number hmem rfl
  rw [keepsGroup hnumbered hother target plan]
  exact h hid (List.mem_append_right _ hmem)

/-! ## The extents in the end -/

/-- Sizing the tree for any target makes a tree that is measured by the extents in the plan behind
it. -/
def SizesMeasured (numberOf caps : GroupId → Option Nat) (tree : Regex) : Prop :=
  ∀ ⦃target : Nat⦄ ⦃plan : SizingPlan⦄ ⦃before : Captures⦄ ⦃sizes :
    GroupId → Extent⦄, plan.Lacks numberOf tree.groupNumbers → plan.Knows before →
    tree.Safe before →
      ((tree.resize caps target).run plan).2.Describes sizes →
        ∀ node ∈ ((tree.resize caps target).run plan).1.visible, node.IsMeasured sizes

variable {before : Captures} {sizes : GroupId → Extent}

/-- Parts in a row that are sized are measured by the extents in the plan behind them. -/
theorem resizeParts_isMeasured (hwell : ∀ part ∈ parts, part.WellFormed)
    (hnumbered : ∀ part ∈ parts, ∀ node ∈ part.visible, node.IsNumbered numberOf)
    (h : ∀ part ∈ parts, part.SizesMeasured numberOf caps) {targets : List Nat}
    (hnodup : (groupNumbersOfAll parts).Nodup)
    (hlacks : plan.Lacks numberOf (groupNumbersOfAll parts)) (hknows : plan.Knows before)
    (hsafe : SafeAll parts before)
    (hsizes : ((resizeParts caps parts targets).run plan).2.Describes sizes) :
    ∀ part ∈ ((resizeParts caps parts targets).run plan).1, ∀ node ∈ part.visible,
      node.IsMeasured sizes := by
  induction parts generalizing targets plan before with
  | nil => exact fun part hpart ↦ (List.not_mem_nil hpart).elim
  | cons part parts ih =>
    cases targets with
    | nil => exact fun part hpart ↦ (List.not_mem_nil hpart).elim
    | cons target targets =>
      obtain ⟨hone, hall⟩ := List.forall_mem_cons.1 hwell
      obtain ⟨hpart, hparts⟩ := List.forall_mem_cons.1 h
      obtain ⟨hnumber, hnumbers⟩ := List.forall_mem_cons.1 hnumbered
      obtain ⟨-, hrestNodup, -⟩ := List.nodup_append.1 hnodup
      have hrest : ((part.resize caps target).run plan).2.Lacks numberOf
          (groupNumbersOfAll parts) :=
        lacks_resize hnumber hlacks hnodup target
      -- The rest is sized behind a text of the part as it was sized.
      have hsizing : IsSizing caps part ((part.resize caps target).run plan).1 :=
        ⟨target, plan, rfl⟩
      obtain ⟨text, middle, hemits⟩ := exists_emits (hsizing.wellFormed hone)
        (hsizing.safe hone hsafe.1)
      have hmiddle := hsafe.2 (hsizing.emits_le hone _ _ _ hemits)
      -- What the plan has behind the part stays there, because the rest has other numbers.
      have hdescribes : ((part.resize caps target).run plan).2.Describes sizes :=
        fun id extent hsome ↦
        hsizes
          ((group?_resizeParts (keepsGroup_of_lacks hnumbers hrest hsome) targets _).trans hsome)
      refine List.forall_mem_cons.2 ⟨?_, ih hall hnumbers hparts hrestNodup hrest
        ((learns_resize part caps target plan).knows_later hknows hemits) hmiddle hsizes⟩
      exact hpart (hlacks.of_subset (List.subset_append_left ..)) hknows hsafe.1 hdescribes

/-- Options that are sized are measured by the extents in the plan behind them. -/
theorem resizeOptions_isMeasured
    (hnumbered : ∀ option ∈ options, ∀ node ∈ option.visible, node.IsNumbered numberOf)
    (h : ∀ option ∈ options, option.SizesMeasured numberOf caps) {reach target : Nat}
    (hnodup : (groupNumbersOfAll options).Nodup)
    (hlacks : plan.Lacks numberOf (groupNumbersOfAll options)) (hknows : plan.Knows before)
    (hsafe : ∀ option ∈ options, option.Safe before)
    (hsizes : ((resizeOptions caps reach options target).run plan).2.Describes sizes) :
    ∀ option ∈ ((resizeOptions caps reach options target).run plan).1,
      ∀ node ∈ option.visible, node.IsMeasured sizes := by
  induction options generalizing plan with
  | nil => exact fun option hoption ↦ (List.not_mem_nil hoption).elim
  | cons option options ih =>
    obtain ⟨hoption, hoptions⟩ := List.forall_mem_cons.1 h
    obtain ⟨hnumber, hnumbers⟩ := List.forall_mem_cons.1 hnumbered
    obtain ⟨hone, hall⟩ := List.forall_mem_cons.1 hsafe
    obtain ⟨-, hrestNodup, -⟩ := List.nodup_append.1 hnodup
    rw [resizeOptions] at hsizes ⊢
    split at hsizes
    · rename_i hreach
      rw [if_pos hreach]
      have hrest : ((option.resize caps target).run plan).2.Lacks numberOf
          (groupNumbersOfAll options) := lacks_resize hnumber hlacks hnodup target
      have hdescribes : ((option.resize caps target).run plan).2.Describes sizes :=
        fun id extent hsome ↦
        hsizes
          ((group?_resizeOptions (keepsGroup_of_lacks hnumbers hrest hsome) reach target _).trans
            hsome)
      refine List.forall_mem_cons.2 ⟨?_, ih hnumbers hoptions hrestNodup hrest
        ((learns_resize option caps target plan).knows hknows) hall hsizes⟩
      exact hoption (hlacks.of_subset (List.subset_append_left ..)) hknows hone hdescribes
    · rename_i hreach
      rw [if_neg hreach]
      exact ih hnumbers hoptions hrestNodup
        (hlacks.of_subset (List.subset_append_right ..)) hknows hall hsizes

/-- A tree that is sized to itself and is not a reference is measured by any extents. -/
theorem sizesMeasured_leaf
    (hsame : ∀ target plan, (tree.resize caps target).run plan = (tree, plan))
    (hvisible : tree.visible = [tree]) (hmeasured : ∀ sizes, tree.IsMeasured sizes) :
    tree.SizesMeasured numberOf caps := by
  intro target plan before sizes hlacks hknows hsafe hsizes node hnode
  rw [hsame, hvisible] at hnode
  exact List.mem_singleton.1 hnode ▸ hmeasured sizes

/-- A group that captures is measured when its body is, because its body has other numbers. -/
theorem sizesMeasured_capturing {number : Nat} {name : Option String}
    (h : body.SizesMeasured numberOf caps)
    (hids : ∀ id ∈ groupIds number name, numberOf id = some number)
    (hnumbered : ∀ node ∈ body.visible, node.IsNumbered numberOf)
    (hnumber : number ∉ body.groupNumbers) :
    (group (.capturing number name) body).SizesMeasured numberOf caps := by
  intro target plan before sizes hlacks hknows hsafe hsizes
  rw [resize_capturing] at hsizes ⊢
  -- The body does not contain the group itself, so its extents stay when the group is noted.
  have hdescribes : ((body.resize caps (groupCap caps number name target)).run plan).2.Describes
      sizes := by
    intro id extent hsome
    refine hsizes ((SizingPlan.group?_noteGroups ..).trans ((if_neg fun hmem ↦ ?_).trans hsome))
    have hid := hids id hmem
    have hother : ∀ other ∈ body.groupNumbers, numberOf id ≠ some other := by
      intro other hother heq
      rw [hid] at heq
      cases heq
      exact hnumber hother
    rw [keepsGroup hnumbered hother _ plan, hlacks hid (List.mem_cons_self ..)] at hsome
    cases hsome
  refine forall_visible_group.2 ⟨fun id hid ↦ ?_, fun _ ↦ ?_⟩
  · rw [hsizes ((SizingPlan.group?_noteGroups ..).trans (if_pos hid))]
    exact .refl _
  · exact h (hlacks.of_subset (List.subset_cons_self ..)) hknows hsafe hdescribes

/-- A reference is measured, because the plan has the extent of its group when it is sized. -/
theorem sizesMeasured_backref (id : GroupId) (extent : Extent) :
    (backref id extent).SizesMeasured numberOf caps := by
  intro target plan before sizes hlacks hknows hsafe hsizes node hnode
  obtain ⟨noted, hnoted⟩ := Option.isSome_iff_exists.1 (hknows id hsafe)
  cases List.mem_singleton.1 hnode
  show (sizes id).Within ((plan.group? id).getD extent)
  rw [hnoted, hsizes hnoted]
  exact .refl _

/-- Sizing makes measured trees of trees whose groups have different numbers. -/
theorem sizesMeasured (hwell : tree.WellFormed)
    (hrepeat : ∀ node ∈ tree.visible, node.CanRepeat)
    (hnumbered : ∀ node ∈ tree.visible, node.IsNumbered numberOf)
    (hnodup : tree.groupNumbers.Nodup) :
    tree.SizesMeasured numberOf caps := by
  induction tree with
  | empty => exact sizesMeasured_leaf (fun _ _ ↦ rfl) rfl fun _ ↦ trivial
  | literal text ignoreCase => exact sizesMeasured_leaf (fun _ _ ↦ rfl) rfl fun _ ↦ trivial
  | set members => exact sizesMeasured_leaf (fun _ _ ↦ rfl) rfl fun _ ↦ trivial
  | sequence parts ih =>
    rw [wellFormed_sequence] at hwell
    rw [forall_visible_sequence] at hrepeat hnumbered
    intro target plan before sizes hlacks hknows hsafe hsizes
    refine forall_visible_sequence.2 ⟨trivial, ?_⟩
    exact resizeParts_isMeasured hwell hnumbered.2
      (fun part hpart ↦ ih part hpart (hwell part hpart) (hrepeat.2 part hpart)
        (hnumbered.2 part hpart) (hnodup.sublist (groupNumbers_sublist_of_mem hpart)))
      hnodup hlacks hknows hsafe hsizes
  | choice options ih =>
    rw [wellFormed_choice] at hwell
    rw [forall_visible_choice] at hrepeat hnumbered
    intro target plan before sizes hlacks hknows hsafe hsizes
    refine forall_visible_choice.2 ⟨trivial, ?_⟩
    exact resizeOptions_isMeasured hnumbered.2
      (fun option hoption ↦ ih option hoption (hwell.2 option hoption) (hrepeat.2 option hoption)
        (hnumbered.2 option hoption) (hnodup.sublist (groupNumbers_sublist_of_mem hoption)))
      hnodup hlacks hknows (safeEach_iff.1 hsafe) hsizes
  | repetition body least most mode ih =>
    rw [wellFormed_repetition] at hwell
    rw [forall_visible_repetition] at hrepeat hnumbered
    intro target plan before sizes hlacks hknows hsafe hsizes
    -- One copy is allowed, so the body is safe where the repetition is.
    have hbody : body.Safe before :=
      (Emission.always_ofText []).1 (hsafe 0 (hrepeat.1.1.mono (Nat.le_max_right ..)))
    refine forall_visible_repetition.2 ⟨trivial, ?_⟩
    exact ih hwell.2 hrepeat.2 hnumbered.2 hnodup hlacks hknows hbody hsizes
  | group kind body ih =>
    rw [wellFormed_group] at hwell
    rw [forall_visible_group] at hrepeat hnumbered
    have hbody (hkind : kind.isLookaround = false) (hnodup : body.groupNumbers.Nodup) :
        body.SizesMeasured numberOf caps :=
      ih hwell (hrepeat.2 hkind) (hnumbered.2 hkind) hnodup
    cases kind with
    | capturing number name =>
      obtain ⟨hnumber, hnodup⟩ := List.nodup_cons.1 hnodup
      exact sizesMeasured_capturing (hbody rfl hnodup) hnumbered.1 (hnumbered.2 rfl) hnumber
    | plain =>
      intro target plan before sizes hlacks hknows hsafe hsizes
      exact forall_visible_group.2 ⟨trivial,
        fun _ ↦ hbody rfl hnodup hlacks hknows hsafe hsizes⟩
    | atomic =>
      intro target plan before sizes hlacks hknows hsafe hsizes
      exact forall_visible_group.2 ⟨trivial,
        fun _ ↦ hbody rfl hnodup hlacks hknows hsafe hsizes⟩
    | lookahead negated =>
      intro target plan before sizes hlacks hknows hsafe hsizes
      exact forall_visible_group.2 ⟨trivial, fun hkind ↦ absurd hkind Bool.noConfusion⟩
    | lookbehind negated =>
      intro target plan before sizes hlacks hknows hsafe hsizes
      exact forall_visible_group.2 ⟨trivial, fun hkind ↦ absurd hkind Bool.noConfusion⟩
  | backref id extent => exact sizesMeasured_backref id extent

/-- A tree that was sized for a target is measured by the extents of its groups. -/
theorem exists_isMeasured_sized (hwell : tree.WellFormed) (hsafe : tree.Safe [])
    (hrepeat : ∀ node ∈ tree.visible, node.CanRepeat)
    (hnumbered : ∀ node ∈ tree.visible, node.IsNumbered numberOf)
    (hnodup : tree.groupNumbers.Nodup) (target : Nat) :
    ∃ sizes, ∀ node ∈ (tree.sized target).visible, node.IsMeasured sizes := by
  let caps := ((tree.resize (fun _ ↦ none) target).run {}).2.budget?
  let plan := ((tree.resize caps target).run {}).2
  refine ⟨fun id ↦ (plan.group? id).getD .zero,
    sizesMeasured hwell hrepeat hnumbered hnodup (fun id number _ _ ↦ rfl) ?_ hsafe ?_⟩
  · intro id hfound
    cases hfound
  · intro id extent hsome
    exact congrArg (Option.getD · .zero) hsome

end Regex

end Exemplar
