import Exemplar.Proofs.Length.Sized

/-!
# Sized repetitions are limited

Sizing narrows the extent of every tree, whatever the target and the budgets are: options are
dropped, repetitions get lower bounds, and a backreference gets the extent of its group as it was
sized. It leaves a repetition without a limit only where the bound of the body is zero
(`fitRepetition_eq_unbounded`). The body of a sized repetition is no longer than the body from
which it was sized, so the unlimited repetitions of a sized tree have bodies whose bound is zero,
and there are none if the tree had none of this kind (`sized_limits`).
-/

namespace Exemplar

open List (Forall₂)

/-! ## Narrower extents -/

/-- Zero is the smallest bound. -/
protected theorem Bound.zero_le (bound : Bound) : 0 ≤ bound :=
  le_of_allows fun _ hnumber ↦ Nat.le_zero.1 hnumber ▸ allows_zero bound

/-- More copies have a larger bound. -/
theorem Bound.mul_le_mul_right {most most' : Bound} (body : Bound) (h : most ≤ most') :
    body * most ≤ body * most' := by
  refine le_of_allows fun number hnumber ↦ ?_
  cases body with
  | finite limit isSize =>
    cases most' with
    | finite larger isSize' =>
      cases most with
      | finite smaller => exact hnumber.of_le (ofExact_mono (Nat.mul_le_mul_left _ h))
      | unbounded => cases h
    | unbounded =>
      cases limit with
      | zero =>
        rw [← zero_eq, zero_mul] at hnumber
        rwa [← zero_eq, zero_mul]
      | succ limit => trivial
  | unbounded =>
    cases most' with
    | finite larger isSize' =>
      cases larger with
      | zero => rwa [le_antisymm h (Bound.zero_le most)] at hnumber
      | succ larger => trivial
    | unbounded => trivial

namespace Extent

/-- Options that are all within an extent are within it together. -/
theorem anyOf_within {options : List Extent} {outer : Extent} (hne : options ≠ [])
    (h : ∀ option ∈ options, option.Within outer) : (anyOf options).Within outer := by
  induction options with
  | nil => exact absurd rfl hne
  | cons option options ih =>
    obtain ⟨hoption, hrest⟩ := List.forall_mem_cons.1 h
    cases options with
    | nil => exact hoption
    | cons other options =>
      have hothers := ih (List.cons_ne_nil other options) hrest
      refine ⟨?_, max_le hoption.ceiling_le hothers.ceiling_le⟩
      show outer.min ≤ (either ..).min
      rw [min_either]
      exact Nat.le_min.2 ⟨hoption.floor_le, hothers.floor_le⟩

variable {body : Extent} {least target : Nat} {most : Bound}

/-- The copies that are chosen for a repetition are no more than the repetition had. -/
theorem raise_fitRepetition_le (hmost : most.Allows least) (hleast : least < Size.modulus) :
    (fitRepetition body least most target).1.raise least ≤ most :=
  Bound.le_of_allows fun _ ↦ allows_of_allows_fitRepetition hmost hleast

/-- The chosen number of copies is without limit only where it was before and the bound of the body
is zero. -/
theorem fitRepetition_eq_unbounded (hleast : least < Size.modulus)
    (h : (fitRepetition body least most target).1.raise least = .unbounded) :
    most = .unbounded ∧ body.max = 0 := by
  have hlargest : Size.largest = Size.modulus - 1 := rfl
  have hraise {bound : Bound} (h : bound.raise least = .unbounded) : bound = .unbounded := by
    unfold Bound.raise at h
    split at h
    · exact h
    · rw [Bound.ofExact_of_lt hleast] at h
      cases h
  have hceiling : most.finite?.getD Size.largest < Size.modulus := by
    cases most with
    | finite limit isSize => exact isSize
    | unbounded => exact Size.min_largest_lt Size.largest
  -- A number of copies below the ceiling is a size.
  have hexact {count : Nat} (hcount : count < Size.modulus) (h : Bound.ofExact count = .unbounded) :
      False := by
    rw [Bound.ofExact_of_lt hcount] at h
    cases h
  have h := hraise h
  unfold fitRepetition at h
  split at h
  · rename_i hfits
    subst h
    refine ⟨rfl, ?_⟩
    cases hmax : body.max with
    | unbounded =>
      rw [hmax] at hfits
      cases hfits
    | finite limit isSize =>
      cases limit with
      | zero => rfl
      | succ limit =>
        rw [hmax] at hfits
        cases hfits
  · split at h
    · exact (hexact hleast h).elim
    · simp only at h
      split at h
      · exact (hexact (by omega) h).elim
      · exact (hexact (by omega) h).elim

end Extent

namespace SizingPlan

variable {sizes : GroupId → Extent}

/-- The extents in the plan lie in the given ones. -/
def Within (plan : SizingPlan) (sizes : GroupId → Extent) : Prop :=
  ∀ ⦃id extent⦄, plan.group? id = some extent → extent.Within (sizes id)

/-- A plan stays within the given extents when a group with such an extent is noted. -/
theorem Within.noteGroups {plan : SizingPlan} (h : plan.Within sizes) {ids : List GroupId}
    {extent : Extent} (hextent : ∀ id ∈ ids, extent.Within (sizes id)) :
    (plan.noteGroups ids extent).Within sizes := by
  intro id found hfound
  rw [group?_noteGroups] at hfound
  split at hfound
  · rename_i hid
    cases hfound
    exact hextent id hid
  · exact h hfound

end SizingPlan

namespace Regex

/-- A repetition without a limit, of a body whose strings are all empty. -/
def RepeatsNothing : Regex → Prop
  | repetition body _ most _ => most = .unbounded ∧ body.maxLength = 0
  | _ => False

instance : DecidablePred RepeatsNothing
  | repetition body _ most _ =>
      inferInstanceAs (Decidable (most = .unbounded ∧ body.maxLength = 0))
  | empty | literal .. | set _ | sequence _ | choice _ | group .. | backref .. => isFalse id

/-- A repetition has a limit. -/
def IsLimited : Regex → Prop
  | repetition _ _ most _ => most ≠ .unbounded
  | _ => True

/-- The second tree is narrower than the first, and its repetitions are limited, up to repetitions
of nothing where these are allowed. -/
structure Limits (allowed : Prop) (tree result : Regex) : Prop where
  extent : result.extent.Within tree.extent
  isLimited : ∀ node ∈ result.visible, node.IsLimited ∨ node.RepeatsNothing ∧ allowed

namespace Limits

variable {allowed : Prop} {tree result body : Regex} {parts options results : List Regex}

/-- A tree without others inside that is no unlimited repetition is limited. -/
theorem leaf (hextent : result.extent.Within tree.extent) (hlimited : result.IsLimited)
    (hvisible : result.visible = [result]) : Limits allowed tree result where
  extent := hextent
  isLimited node hnode := by
    rw [hvisible, List.mem_singleton] at hnode
    exact .inl (hnode ▸ hlimited)

/-- Limited parts are limited in a row. -/
theorem sequence (h : Forall₂ (Limits allowed) parts results) :
    Limits allowed (sequence parts) (sequence results) where
  extent := by
    rw [Regex.extent, Regex.extent, extents_eq_map, extents_eq_map]
    induction h with
    | nil => exact .refl _
    | cons hhead htail ih => exact hhead.extent.followedBy ih
  isLimited := by
    refine forall_visible_sequence.2 ⟨.inl trivial, fun result hresult ↦ ?_⟩
    obtain ⟨part, -, hlimits⟩ := exists_of_forall₂ h hresult
    exact hlimits.isLimited

/-- A choice is limited when its options are limited ones of some of the options, with the shortest
one among these. -/
theorem choice {kept : List Regex} (hne : options ≠ [])
    (h : Forall₂ (Limits allowed) kept results) (hsub : ∀ option ∈ kept, option ∈ options)
    (hleast : ∀ option ∈ options, option.minLength ≤ (choice options).minLength →
      option ∈ kept) :
    Limits allowed (choice options) (choice results) where
  extent := by
    rw [Regex.extent, Regex.extent, extents_eq_map, extents_eq_map]
    refine Extent.anyOf_within ?_ (List.forall_mem_map.2 fun result hresult ↦ ?_)
    · obtain ⟨shortest, hshortest, hmin⟩ := exists_minLength_le hne
      obtain ⟨result, hresult, -⟩ := exists_of_forall₂ h.flip (hleast shortest hshortest hmin)
      exact List.ne_nil_of_mem (List.mem_map_of_mem hresult)
    · obtain ⟨option, hoption, hlimits⟩ := exists_of_forall₂ h hresult
      exact hlimits.extent.trans (Extent.within_anyOf (List.mem_map_of_mem (hsub option hoption)))
  isLimited := by
    refine forall_visible_choice.2 ⟨.inl trivial, fun result hresult ↦ ?_⟩
    obtain ⟨option, -, hlimits⟩ := exists_of_forall₂ h hresult
    exact hlimits.isLimited

/-- A repetition with the copies that are chosen for a target is limited when its body is. -/
theorem repetition {least : Nat} {most : Bound} {mode : RepetitionMode}
    (h : Limits allowed body result) (hmost : most.Allows least) (hleast : least < Size.modulus)
    (hallowed : (repetition body least most mode).RepeatsNothing → allowed) (target : Nat) :
    Limits allowed (repetition body least most mode)
      (result.repeated least (body.extent.fitRepetition least most target).1 mode) where
  extent := by
    refine (h.extent.repeated least _).trans ⟨Nat.le_refl _, ?_⟩
    exact Bound.mul_le_mul_right _ (Extent.raise_fitRepetition_le hmost hleast)
  isLimited := by
    refine forall_visible_repetition.2 ⟨?_, h.isLimited⟩
    by_cases hunbounded : (body.extent.fitRepetition least most target).1.raise least = .unbounded
    · obtain ⟨hmost, hmax⟩ := Extent.fitRepetition_eq_unbounded hleast hunbounded
      have hzero : result.maxLength ≤ 0 := hmax ▸ h.extent.ceiling_le
      exact .inr ⟨⟨hunbounded, le_antisymm hzero (Bound.zero_le _)⟩,
        hallowed ⟨hmost, hmax⟩⟩
    · exact .inl hunbounded

/-- A group that is no assertion is limited when its body is. -/
theorem group {kind : GroupKind} (hkind : kind.isLookaround = false)
    (h : Limits allowed body result) :
    Limits allowed (group kind body) (group kind result) where
  extent := by
    cases kind with
    | capturing number name => exact h.extent
    | plain => exact h.extent
    | atomic => exact h.extent
    | lookahead negated => cases hkind
    | lookbehind negated => cases hkind
  isLimited := forall_visible_group.2 ⟨.inl trivial, fun _ ↦ h.isLimited⟩

end Limits

variable {sizes : GroupId → Extent} {allowed : Prop} {caps : GroupId → Option Nat}
  {tree : Regex}

/-- Sizing limits a well-formed tree in which groups have narrower extents than their
backreferences. -/
theorem sizesTo_limits (hwell : tree.WellFormed)
    (hmeasured : ∀ node ∈ tree.visible, node.IsMeasured sizes)
    (hallowed : ∀ node ∈ tree.visible, node.RepeatsNothing → allowed) :
    SizesTo caps (Limits allowed) (·.Within sizes) tree := by
  induction tree with
  | empty => exact fun target plan hplan ↦ ⟨.leaf (.refl _) trivial rfl, hplan⟩
  | literal text ignoreCase =>
    exact fun target plan hplan ↦ ⟨.leaf (.refl _) trivial rfl, hplan⟩
  | set members => exact fun target plan hplan ↦ ⟨.leaf (.refl _) trivial rfl, hplan⟩
  | sequence parts ih =>
    rw [wellFormed_sequence] at hwell
    rw [forall_visible_sequence] at hmeasured hallowed
    intro target plan hplan
    obtain ⟨hparts, hafter⟩ := resizeParts_related
      (fun part hpart ↦ ih part hpart (hwell part hpart) (hmeasured.2 part hpart)
        (hallowed.2 part hpart))
      (length_splitTarget_extents parts target) hplan
    exact ⟨.sequence hparts, hafter⟩
  | choice options ih =>
    rw [wellFormed_choice] at hwell
    rw [forall_visible_choice] at hmeasured hallowed
    intro target plan hplan
    obtain ⟨hoptions, hafter⟩ := resizeOptions_related
      (fun option hoption ↦ ih option hoption (hwell.2 option hoption)
        (hmeasured.2 option hoption) (hallowed.2 option hoption))
      (max target (choice options).minLength) target hplan
    refine ⟨.choice hwell.1 hoptions (fun option ↦ List.mem_of_mem_filter) ?_, hafter⟩
    intro option hoption hmin
    have hreach := Nat.le_trans hmin (Nat.le_max_right target _)
    exact List.mem_filter.2 ⟨hoption, by simpa using hreach⟩
  | repetition body least most mode ih =>
    rw [wellFormed_repetition] at hwell
    rw [forall_visible_repetition] at hmeasured hallowed
    intro target plan hplan
    obtain ⟨hbody, hafter⟩ := ih hwell.2 hmeasured.2 hallowed.2 hplan
    exact ⟨hbody.repetition hwell.1.1 hwell.1.2 hallowed.1 target, hafter⟩
  | group kind body ih =>
    rw [wellFormed_group] at hwell
    rw [forall_visible_group] at hmeasured hallowed
    have hbody (hkind : kind.isLookaround = false) :
        SizesTo caps (Limits allowed) (·.Within sizes) body :=
      ih hwell (hmeasured.2 hkind) (hallowed.2 hkind)
    cases kind with
    | capturing number name =>
      intro target plan hplan
      obtain ⟨hlimits, hafter⟩ := hbody rfl hplan
      rw [resize_capturing]
      exact ⟨hlimits.group rfl, hafter.noteGroups fun id hid ↦
        hlimits.extent.trans (hmeasured.1 id hid)⟩
    | plain => exact fun target plan hplan ↦ (hbody rfl hplan).imp_left (.group rfl)
    | atomic => exact fun target plan hplan ↦ (hbody rfl hplan).imp_left (.group rfl)
    | lookahead negated => exact fun target plan hplan ↦ ⟨.leaf (.refl _) trivial rfl, hplan⟩
    | lookbehind negated => exact fun target plan hplan ↦ ⟨.leaf (.refl _) trivial rfl, hplan⟩
  | backref id extent =>
    intro target plan hplan
    have hsize : (sizes id).Within extent := hmeasured _ (mem_visible_self _)
    refine ⟨.leaf ?_ trivial rfl, hplan⟩
    show ((plan.group? id).getD extent).Within extent
    cases hnoted : plan.group? id with
    | none => exact .refl _
    | some noted => exact (hplan hnoted).trans hsize

/-- A repetition in a sized tree is limited unless it repeats nothing, and then there was one in
the tree that repeated nothing. -/
theorem sized_limits (hwell : tree.WellFormed)
    (hmeasured : ∀ node ∈ tree.visible, node.IsMeasured sizes) (target : Nat) :
    ∀ node ∈ (tree.sized target).visible,
      node.IsLimited ∨ node.RepeatsNothing ∧ ∃ other ∈ tree.visible,
      other.RepeatsNothing := by
  have hempty : ({} : SizingPlan).Within sizes := by
    intro id extent hfound
    cases hfound
  exact (sizesTo_limits hwell hmeasured (fun node hnode hnothing ↦ ⟨node, hnode, hnothing⟩)
    hempty).1.isLimited

end Regex

end Exemplar
