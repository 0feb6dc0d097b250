import Exemplar.Proofs.Length.Room
import Exemplar.Proofs.Length.Sized

/-!
# Targets that make no difference

Targets that do not exceed the least length of a tree size it in the same way, because every part
gets its least length from them (`resize_of_le_minLength`). Targets that the bound of a tree does
not exceed do so too: every part gets at least its own bound, and so does every backreference,
whose budgets then do not hold back the groups (`sizesAlike`). So a tree is sized in the same way
for targets that are interchangeable for its extent (`sized_eq_of_interchangeable`).
-/

namespace Exemplar

open List (Forall₂)

/-- Plans with the same extents have the same extents after they take note of a group. -/
theorem SizingPlan.groups_noteGroups_congr {plan plan' : SizingPlan}
    (h : plan.groups = plan'.groups) (ids : List GroupId) (extent : Extent) :
    (plan.noteGroups ids extent).groups = (plan'.noteGroups ids extent).groups := by
  induction ids generalizing plan plan' with
  | nil => exact h
  | cons id ids ih =>
    refine ih ?_
    show (id, extent) :: plan.groups.filter _ = (id, extent) :: plan'.groups.filter _
    rw [h]

namespace Regex

variable {caps caps' : GroupId → Option Nat} {tree : Regex} {parts options : List Regex}
  {target target' : Nat}

/-! ## Below the least length -/

/-- Options are sized in the same way when each option is. -/
theorem resizeOptions_congr {reach : Nat}
    (h : ∀ option ∈ options, option.resize caps target = option.resize caps target') :
    resizeOptions caps reach options target = resizeOptions caps reach options target' := by
  induction options with
  | nil => rfl
  | cons option options ih =>
    obtain ⟨hoption, hoptions⟩ := List.forall_mem_cons.1 h
    rw [resizeOptions, resizeOptions, ih hoptions, hoption]

/-- A tree is sized in the same way for all targets that do not exceed its least length, if its
least lengths are sizes and it does not begin with a backreference. -/
theorem resize_of_le_minLength (hrepeat : ∀ node ∈ tree.visible, node.CanRepeat)
    (hsize : ∀ node ∈ tree.visible, node.minLength < Size.largest) (hsafe : tree.Safe [])
    (h : target ≤ tree.minLength) (h' : target' ≤ tree.minLength) :
    tree.resize caps target = tree.resize caps target' := by
  induction tree generalizing target target' with
  | empty => rfl
  | literal text ignoreCase => rfl
  | set members => rfl
  | sequence parts ih =>
    rw [resize, resize, Extent.splitTarget_of_le_floorOf h, Extent.splitTarget_of_le_floorOf h']
  | choice options ih =>
    rw [forall_visible_choice] at hrepeat hsize
    rw [resize, resize, Nat.max_eq_right h, Nat.max_eq_right h', resizeOptions_congr]
    intro option hoption
    have hfloor := minLength_choice_le hoption
    exact ih option hoption (hrepeat.2 option hoption) (hsize.2 option hoption)
      (safeEach_iff.1 hsafe option hoption) (Nat.le_trans h hfloor) (Nat.le_trans h' hfloor)
  | repetition body least most mode ih =>
    rw [forall_visible_repetition] at hrepeat hsize
    obtain ⟨⟨hmost, -, hvalid⟩, -⟩ := hrepeat
    have hsize := hsize.1
    have hmin : (repetition body least most mode).minLength =
        min (body.extent.min * least) Size.largest := rfl
    rw [hmin] at h h' hsize
    rcases Nat.eq_zero_or_pos (body.extent.min * least) with hzero | hpos
    · rw [hzero] at h h'
      rw [Nat.le_zero.1 (Nat.le_trans h (Nat.min_le_left ..)),
        Nat.le_zero.1 (Nat.le_trans h' (Nat.min_le_left ..))]
    · have hleast := hmost.mono (Nat.le_max_left ..)
      rw [resize, resize, Extent.fitRepetition_of_le_floor hvalid hleast hpos (by omega) (by omega),
        Extent.fitRepetition_of_le_floor hvalid hleast hpos (by omega) (by omega)]
  | group kind body ih =>
    rw [forall_visible_group] at hrepeat hsize
    have hbody {target target' : Nat} (hkind : kind.isLookaround = false)
        (h : target ≤ body.minLength) (h' : target' ≤ body.minLength) :
        body.resize caps target = body.resize caps target' :=
      ih (hrepeat.2 hkind) (hsize.2 hkind) (hsafe.of_group hkind) h h'
    cases kind with
    | capturing number name =>
      have hcap (target : Nat) : groupCap caps number name target ≤ target :=
        (le_groupCap_iff.1 (Nat.le_refl _)).1
      rw [resize, resize, hbody rfl (Nat.le_trans (hcap target) h) (Nat.le_trans (hcap target') h')]
    | plain => rw [resize, resize, hbody rfl h h']
    | atomic => rw [resize, resize, hbody rfl h h']
    | lookahead negated => rfl
    | lookbehind negated => rfl
  | backref id extent => cases hsafe

/-! ## Above the bound -/

/-- No cap on a group falls below the bound of the group. -/
def IsLoose (caps : GroupId → Option Nat) : Regex → Prop
  | group (.capturing number name) body =>
      ∀ id ∈ groupIds number name, ∀ cap, caps id = some cap → body.maxLength.IsWithin cap
  | _ => True

/-- Sizing the tree for any targets that its bound does not exceed makes the same tree under both
caps and notes the same extents of groups. -/
def SizesAlike (caps caps' : GroupId → Option Nat) (tree : Regex) : Prop :=
  ∀ ⦃target target' : Nat⦄ ⦃plan plan' : SizingPlan⦄, tree.maxLength.IsWithin target →
    tree.maxLength.IsWithin target' → plan.groups = plan'.groups →
      ((tree.resize caps target).run plan).1 = ((tree.resize caps' target').run plan').1 ∧
        ((tree.resize caps target).run plan).2.groups =
          ((tree.resize caps' target').run plan').2.groups

/-- A group is not held back when neither the target nor a cap falls below its bound. -/
theorem isWithin_groupCap {number : Nat} {name : Option String} {body : Regex}
    (hmax : body.maxLength.IsWithin target)
    (hloose : (group (.capturing number name) body).IsLoose caps) :
    body.maxLength.IsWithin (groupCap caps number name target) := by
  cases hlimit : body.maxLength with
  | finite limit isSize =>
    rw [hlimit] at hmax
    refine le_groupCap_iff.2 ⟨hmax, fun id hid cap hcap ↦ ?_⟩
    have hwithin := hloose id hid cap hcap
    rwa [hlimit] at hwithin
  | unbounded =>
    rw [hlimit] at hmax
    cases hmax

/-- Parts in a row are sized alike when each part is. -/
theorem resizeParts_alike (h : ∀ part ∈ parts, part.SizesAlike caps caps')
    {targets targets' : List Nat}
    (hmax : Forall₂ (fun part target ↦ part.maxLength.IsWithin target) parts targets)
    (hmax' : Forall₂ (fun part target ↦ part.maxLength.IsWithin target) parts targets')
    {plan plan' : SizingPlan} (hgroups : plan.groups = plan'.groups) :
    ((resizeParts caps parts targets).run plan).1 =
      ((resizeParts caps' parts targets').run plan').1 ∧
      ((resizeParts caps parts targets).run plan).2.groups =
        ((resizeParts caps' parts targets').run plan').2.groups := by
  induction hmax generalizing targets' plan plan' with
  | nil =>
    cases hmax'
    exact ⟨rfl, hgroups⟩
  | cons hhead htail ih =>
    cases hmax' with
    | cons hhead' htail' =>
      obtain ⟨hpart, hparts⟩ := List.forall_mem_cons.1 h
      obtain ⟨htree, hmiddle⟩ := hpart hhead hhead' hgroups
      obtain ⟨htrees, hgroups⟩ := ih hparts htail' hmiddle
      exact ⟨congrArg₂ List.cons htree htrees, hgroups⟩

/-- Options that are all within reach are sized alike when each option is. -/
theorem resizeOptions_alike (h : ∀ option ∈ options, option.SizesAlike caps caps')
    {reach reach' : Nat} (hreach : ∀ option ∈ options, option.minLength ≤ reach)
    (hreach' : ∀ option ∈ options, option.minLength ≤ reach')
    (hmax : ∀ option ∈ options, option.maxLength.IsWithin target)
    (hmax' : ∀ option ∈ options, option.maxLength.IsWithin target') {plan plan' : SizingPlan}
    (hgroups : plan.groups = plan'.groups) :
    ((resizeOptions caps reach options target).run plan).1 =
        ((resizeOptions caps' reach' options target').run plan').1 ∧
      ((resizeOptions caps reach options target).run plan).2.groups =
        ((resizeOptions caps' reach' options target').run plan').2.groups := by
  induction options generalizing plan plan' with
  | nil => exact ⟨rfl, hgroups⟩
  | cons option options ih =>
    rw [List.forall_mem_cons] at h hreach hreach' hmax hmax'
    rw [resizeOptions, resizeOptions, if_pos hreach.1, if_pos hreach'.1]
    obtain ⟨htree, hmiddle⟩ := h.1 hmax.1 hmax'.1 hgroups
    obtain ⟨htrees, hgroups⟩ := ih h.2 hreach.2 hreach'.2 hmax.2 hmax'.2 hmiddle
    exact ⟨congrArg₂ List.cons htree htrees, hgroups⟩

/-- The budgets of the parts of a sequence are not below their bounds when the target is not below
that of the sequence. -/
theorem isWithin_splitTarget (hvalid : ∀ part ∈ parts, part.extent.Valid)
    (hmax : (sequence parts).maxLength.IsWithin target) :
    Forall₂ (fun part budget ↦ part.maxLength.IsWithin budget) parts
      (Extent.splitTarget (extents parts) target) := by
  have hparts : ∀ extent ∈ extents parts, extent.Valid := by
    rwa [extents_eq_map, List.forall_mem_map]
  have hsplit := Extent.isWithin_splitTarget hparts hmax
  rwa [extents_eq_map, List.forall₂_map_left_iff, ← extents_eq_map] at hsplit

/-- A target that is not below the bound of a choice is not below that of any option. -/
theorem isWithin_of_choice (hmax : (choice options).maxLength.IsWithin target) {option : Regex}
    (hoption : option ∈ options) : option.maxLength.IsWithin target := by
  rw [maxLength, extent, extents_eq_map] at hmax
  exact hmax.of_le (Extent.within_anyOf (List.mem_map_of_mem hoption)).ceiling_le

/-- Every option is within reach when the target is not below the bound of the choice. -/
theorem minLength_le_reach (hvalid : ∀ option ∈ options, option.extent.Valid)
    (hmax : (choice options).maxLength.IsWithin target) :
    ∀ option ∈ options, option.minLength ≤ max target (choice options).minLength :=
  fun option hoption ↦
  Nat.le_trans (Extent.min_le_of_isWithin (hvalid option hoption) (isWithin_of_choice hmax hoption))
    (Nat.le_max_left ..)

/-- Sizing is alike under caps that are loose. -/
theorem sizesAlike (hrepeat : ∀ node ∈ tree.visible, node.CanRepeat)
    (hvalid : ∀ node ∈ tree.visible, node.extent.Valid)
    (hloose : ∀ node ∈ tree.visible, node.IsLoose caps)
    (hloose' : ∀ node ∈ tree.visible, node.IsLoose caps') : tree.SizesAlike caps caps' := by
  induction tree with
  | empty => exact fun target target' plan plan' hmax hmax' hgroups ↦ ⟨rfl, hgroups⟩
  | literal text ignoreCase =>
    exact fun target target' plan plan' hmax hmax' hgroups ↦ ⟨rfl, hgroups⟩
  | set members => exact fun target target' plan plan' hmax hmax' hgroups ↦ ⟨rfl, hgroups⟩
  | sequence parts ih =>
    rw [forall_visible_sequence] at hrepeat hvalid hloose hloose'
    have hparts : ∀ part ∈ parts, part.extent.Valid :=
      fun part hpart ↦ hvalid.2 part hpart part (mem_visible_self part)
    intro target target' plan plan' hmax hmax' hgroups
    obtain ⟨htrees, hgroups⟩ := resizeParts_alike
      (fun part hpart ↦ ih part hpart (hrepeat.2 part hpart) (hvalid.2 part hpart)
        (hloose.2 part hpart) (hloose'.2 part hpart))
      (isWithin_splitTarget hparts hmax) (isWithin_splitTarget hparts hmax') hgroups
    exact ⟨congrArg sequence htrees, hgroups⟩
  | choice options ih =>
    rw [forall_visible_choice] at hrepeat hvalid hloose hloose'
    have hextents : ∀ option ∈ options, option.extent.Valid :=
      fun option hoption ↦ hvalid.2 option hoption option (mem_visible_self option)
    intro target target' plan plan' hmax hmax' hgroups
    obtain ⟨htrees, hgroups⟩ := resizeOptions_alike
      (fun option hoption ↦ ih option hoption (hrepeat.2 option hoption) (hvalid.2 option hoption)
        (hloose.2 option hoption) (hloose'.2 option hoption))
      (minLength_le_reach hextents hmax) (minLength_le_reach hextents hmax')
      (fun option ↦ isWithin_of_choice hmax) (fun option ↦ isWithin_of_choice hmax') hgroups
    exact ⟨congrArg choice htrees, hgroups⟩
  | repetition body least most mode ih =>
    rw [forall_visible_repetition] at hrepeat hvalid hloose hloose'
    intro target target' plan plan' hmax hmax' hgroups
    have hcopy := Extent.isWithin_copy (hrepeat.1.1.mono (Nat.le_max_right ..)) hmax
    obtain ⟨htree, hgroups⟩ := ih hrepeat.2 hvalid.2 hloose.2 hloose'.2 hcopy hcopy hgroups
    rw [resize_repetition (Extent.fitRepetition_of_isWithin least hmax),
      resize_repetition (Extent.fitRepetition_of_isWithin least hmax')]
    exact ⟨congrArg (repeated · least most mode) htree, hgroups⟩
  | group kind body ih =>
    rw [forall_visible_group] at hrepeat hvalid hloose hloose'
    have hbody (hkind : kind.isLookaround = false) : body.SizesAlike caps caps' :=
      ih (hrepeat.2 hkind) (hvalid.2 hkind) (hloose.2 hkind) (hloose'.2 hkind)
    cases kind with
    | capturing number name =>
      intro target target' plan plan' hmax hmax' hgroups
      obtain ⟨htree, hgroups⟩ := hbody rfl (isWithin_groupCap hmax hloose.1)
        (isWithin_groupCap hmax' hloose'.1) hgroups
      rw [resize_capturing, resize_capturing, htree]
      exact ⟨rfl, SizingPlan.groups_noteGroups_congr hgroups ..⟩
    | plain =>
      intro target target' plan plan' hmax hmax' hgroups
      obtain ⟨htree, hgroups⟩ := hbody rfl hmax hmax' hgroups
      exact ⟨congrArg (group .plain) htree, hgroups⟩
    | atomic =>
      intro target target' plan plan' hmax hmax' hgroups
      obtain ⟨htree, hgroups⟩ := hbody rfl hmax hmax' hgroups
      exact ⟨congrArg (group .atomic) htree, hgroups⟩
    | lookahead negated =>
      exact fun target target' plan plan' hmax hmax' hgroups ↦ ⟨rfl, hgroups⟩
    | lookbehind negated =>
      exact fun target target' plan plan' hmax hmax' hgroups ↦ ⟨rfl, hgroups⟩
  | backref id extent =>
    intro target target' plan plan' hmax hmax' hgroups
    refine ⟨?_, hgroups⟩
    show backref id ((plan.groups.lookup id).getD extent) =
      backref id ((plan'.groups.lookup id).getD extent)
    rw [hgroups]

/-- The share of a backreference is not below its bound when the target is not below that of the
tree. -/
theorem isWithin_of_mem_shares (hrepeat : ∀ node ∈ tree.visible, node.CanRepeat)
    (hvalid : ∀ node ∈ tree.visible, node.extent.Valid) (hmax : tree.maxLength.IsWithin target)
    {id : GroupId} {share : Nat} (h : (id, share) ∈ tree.shares target) :
    ∃ extent, backref id extent ∈ tree.visible ∧ extent.max.IsWithin share := by
  induction tree generalizing target with
  | empty => cases h
  | literal text ignoreCase => cases h
  | set members => cases h
  | sequence parts ih =>
    rw [forall_visible_sequence] at hrepeat hvalid
    obtain ⟨part, budget, hzip, hshare⟩ := exists_of_mem_sharesOfParts h
    have hpart := (List.of_mem_zip hzip).1
    have hbudgets := isWithin_splitTarget
      (fun part hpart ↦ hvalid.2 part hpart part (mem_visible_self part)) hmax
    obtain ⟨extent, hvisible, hwithin⟩ :=
      ih part hpart (hrepeat.2 part hpart) (hvalid.2 part hpart)
      ((List.forall₂_iff_zip.1 hbudgets).2 hzip) hshare
    exact ⟨extent, mem_visible_sequence.2 (.inr ⟨part, hpart, hvisible⟩), hwithin⟩
  | choice options ih =>
    rw [forall_visible_choice] at hrepeat hvalid
    obtain ⟨option, hoption, -, hshare⟩ := exists_of_mem_sharesOfOptions h
    obtain ⟨extent, hvisible, hwithin⟩ := ih option hoption (hrepeat.2 option hoption)
      (hvalid.2 option hoption) (isWithin_of_choice hmax hoption) hshare
    exact ⟨extent, mem_visible_choice.2 (.inr ⟨option, hoption, hvisible⟩), hwithin⟩
  | repetition body least most mode ih =>
    rw [forall_visible_repetition] at hrepeat hvalid
    rw [shares, Extent.fitRepetition_of_isWithin least hmax] at h
    obtain ⟨extent, hvisible, hwithin⟩ := ih hrepeat.2 hvalid.2
      (Extent.isWithin_copy (hrepeat.1.1.mono (Nat.le_max_right ..)) hmax) h
    exact ⟨extent, mem_visible_repetition.2 (.inr hvisible), hwithin⟩
  | group kind body ih =>
    rw [forall_visible_group] at hrepeat hvalid
    rw [shares] at h
    split at h
    · cases h
    · rename_i hkind
      rw [Bool.not_eq_true] at hkind
      have hmax : body.maxLength.IsWithin target := by
        rwa [maxLength, extent, if_neg (by simp [hkind])] at hmax
      obtain ⟨extent, hvisible, hwithin⟩ := ih (hrepeat.2 hkind) (hvalid.2 hkind) hmax h
      exact ⟨extent, mem_visible_group.2 (.inr ⟨hkind, hvisible⟩), hwithin⟩
  | backref id' extent =>
    cases List.mem_singleton.1 h
    exact ⟨extent, mem_visible_self _, hmax⟩

/-! ## Both rounds -/

section Both

variable {sizes : GroupId → Extent} (hrepeat : ∀ node ∈ tree.visible, node.CanRepeat)
  (hvalid : ∀ node ∈ tree.visible, node.extent.Valid)
  (hmeasured : ∀ node ∈ tree.visible, node.IsMeasured sizes)

include hrepeat hvalid hmeasured

/-- The first round finds loose caps for a target that the bound of the tree does not exceed. -/
theorem isLoose_of_isWithin (hmax : tree.maxLength.IsWithin target) :
    ∀ node ∈ tree.visible,
      node.IsLoose ((tree.resize (fun _ ↦ none) target).run {}).2.budget? := by
  intro node hnode
  cases node with
  | group kind body =>
    cases kind with
    | capturing number name =>
      intro id hid cap hcap
      have hnone : ({} : SizingPlan).budget? id ≠ some cap := by simp [SizingPlan.budget?]
      have hshare := ((notes_resize tree target {}).origin hcap).resolve_left hnone
      obtain ⟨extent, hreference, hwithin⟩ := isWithin_of_mem_shares hrepeat hvalid hmax hshare
      -- The backreference expects all lengths that the group may have.
      have hgroup : body.extent.Within (sizes id) := hmeasured _ hnode id hid
      have hreferred : (sizes id).Within extent := hmeasured _ hreference
      exact hwithin.of_le (hgroup.trans hreferred).ceiling_le
    | plain => exact trivial
    | atomic => exact trivial
    | lookahead negated => exact trivial
    | lookbehind negated => exact trivial
  | empty => exact trivial
  | literal text ignoreCase => exact trivial
  | set members => exact trivial
  | sequence parts => exact trivial
  | choice options => exact trivial
  | repetition body least most mode => exact trivial
  | backref id extent => exact trivial

/-- A tree is sized in the same way for targets that are interchangeable for its extent. -/
theorem sized_eq_of_interchangeable
    (hsize : ∀ node ∈ tree.visible, node.minLength < Size.largest) (hsafe : tree.Safe [])
    (h : tree.extent.Interchangeable target target') :
    tree.sized target = tree.sized target' := by
  rcases h with rfl | ⟨hle, hle'⟩ | ⟨hmax, hmax'⟩
  · rfl
  · rw [sized, sized, resize_of_le_minLength hrepeat hsize hsafe hle hle',
      resize_of_le_minLength hrepeat hsize hsafe hle hle']
  · exact (sizesAlike hrepeat hvalid (isLoose_of_isWithin hrepeat hvalid hmeasured hmax)
      (isLoose_of_isWithin hrepeat hvalid hmeasured hmax') hmax hmax' rfl).1

end Both

end Regex

end Exemplar
