import Exemplar.Proofs.Regex.Sizing

/-!
# What backreferences get

The first round of sizing finds out how long the text of every backreference may become. `shares`
are the targets that reach the backreferences of a tree when no group is held to a cap, and after
the first round the plan has the smallest share for each group (`notes_resize`). No share is
smaller than the least length that its backreference expects (`min_le_of_mem_shares`).
-/

namespace Exemplar

/-- A record that replaces the other ones of its key does not matter for another key. -/
theorem lookup_cons_filter_of_ne {α β : Type} [BEq α] [LawfulBEq α] {key other : α}
    (h : other ≠ key) (value : β) (entries : List (α × β)) :
    ((key, value) :: entries.filter (·.1 != key)).lookup other = entries.lookup other := by
  rw [List.lookup_cons, beq_false_of_ne h]
  simp only
  induction entries with
  | nil => rfl
  | cons entry entries ih =>
    obtain ⟨head, value⟩ := entry
    by_cases hhead : head = key
    · subst head
      rw [List.filter_cons_of_neg (by simp), List.lookup_cons, beq_false_of_ne h, ih]
    · rw [List.filter_cons_of_pos (by simpa using hhead), List.lookup_cons, List.lookup_cons, ih]

namespace SizingPlan

/-- The other groups keep their budgets. -/
theorem budget?_noteBudget_of_ne {plan : SizingPlan} {id other : GroupId} (h : other ≠ id)
    (budget : Nat) : (plan.noteBudget id budget).budget? other = plan.budget? other :=
  lookup_cons_filter_of_ne h _ _

/-- A group has the smaller one of the budget that is noted and the one that it had. -/
theorem budget?_noteBudget_self (plan : SizingPlan) (id : GroupId) (budget : Nat) :
    ∃ least, (plan.noteBudget id budget).budget? id = some least ∧ least ≤ budget ∧
      (∀ previous, plan.budget? id = some previous → least ≤ previous) ∧
      (plan.budget? id = some least ∨ least = budget) := by
  cases hprevious : plan.budget? id with
  | none =>
    refine ⟨budget, ?_, Nat.le_refl _, by simp, .inr rfl⟩
    rw [budget?] at hprevious
    simp [noteBudget, budget?, hprevious]
  | some previous =>
    refine ⟨min previous budget, ?_, Nat.min_le_right .., ?_, ?_⟩
    · rw [budget?] at hprevious
      simp [noteBudget, budget?, hprevious]
    · rintro _ ⟨⟩
      exact Nat.min_le_left ..
    · rcases Nat.le_total previous budget with hle | hle
      · exact .inl (by rw [Nat.min_eq_left hle])
      · exact .inr (Nat.min_eq_right hle)

/-- Take note of the extent of a group under several references. -/
def noteGroups (plan : SizingPlan) (ids : List GroupId) (extent : Extent) : SizingPlan :=
  ids.foldl (fun plan id ↦ plan.noteGroup id extent) plan

/-- The extents of groups do not matter for budgets. -/
theorem budgets_noteGroups (plan : SizingPlan) (ids : List GroupId) (extent : Extent) :
    (plan.noteGroups ids extent).budgets = plan.budgets := by
  induction ids generalizing plan with
  | nil => rfl
  | cons id ids ih => exact ih (plan.noteGroup id extent)

/-- `plan.Notes shares after` says that the shares are noted in the later plan, where a group has
the smallest of its shares: a budget that is noted is an earlier one or a share, and none exceeds
an earlier one or a share. -/
structure Notes (plan : SizingPlan) (shares : List (GroupId × Nat))
    (after : SizingPlan) : Prop where
  origin {id : GroupId} {budget : Nat} : after.budget? id = some budget →
    plan.budget? id = some budget ∨ (id, budget) ∈ shares
  exists_le {id : GroupId} {budget : Nat} : plan.budget? id = some budget ∨
    (id, budget) ∈ shares → ∃ least ≤ budget, after.budget? id = some least

namespace Notes

variable {plan middle after : SizingPlan} {shares later : List (GroupId × Nat)}

/-- No share is noted when no budget changes. -/
theorem of_eq (h : after.budgets = plan.budgets) : plan.Notes [] after where
  origin hbudget := by
    rw [budget?, h] at hbudget
    exact .inl hbudget
  exists_le {id budget} hbudget := by
    rcases hbudget with hbudget | hmem
    · refine ⟨budget, Nat.le_refl _, ?_⟩
      rw [budget?, h]
      exact hbudget
    · cases hmem

/-- Shares are noted one after the other. -/
theorem trans (h : plan.Notes shares middle) (hlater : middle.Notes later after) :
    plan.Notes (shares ++ later) after where
  origin hbudget := by
    rcases hlater.origin hbudget with hbudget | hmem
    · exact (h.origin hbudget).imp_right (List.mem_append_left _)
    · exact .inr (List.mem_append_right _ hmem)
  exists_le {id budget} hbudget := by
    have hfirst (hbudget : plan.budget? id = some budget ∨ (id, budget) ∈ shares) :
        ∃ least ≤ budget, after.budget? id = some least := by
      obtain ⟨between, hle, hbetween⟩ := h.exists_le hbudget
      obtain ⟨least, hle', hleast⟩ := hlater.exists_le (.inl hbetween)
      exact ⟨least, Nat.le_trans hle' hle, hleast⟩
    rcases hbudget with hbudget | hmem
    · exact hfirst (.inl hbudget)
    · rcases List.mem_append.1 hmem with hmem | hmem
      · exact hfirst (.inr hmem)
      · exact hlater.exists_le (.inr hmem)

/-- The budget of a backreference is noted. -/
theorem noteBudget (plan : SizingPlan) (id : GroupId) (budget : Nat) :
    plan.Notes [(id, budget)] (plan.noteBudget id budget) := by
  obtain ⟨least, hleast, hle, hprevious, horigin⟩ := plan.budget?_noteBudget_self id budget
  constructor
  · intro other other' hbudget
    by_cases hid : other = id
    · subst other
      rw [hleast] at hbudget
      cases hbudget
      exact horigin.imp_right fun heq ↦ by simp [heq]
    · rw [budget?_noteBudget_of_ne hid] at hbudget
      exact .inl hbudget
  · intro other other' hbudget
    by_cases hid : other = id
    · subst other
      refine ⟨least, ?_, hleast⟩
      rcases hbudget with hbudget | hmem
      · exact hprevious _ hbudget
      · cases List.mem_singleton.1 hmem
        exact hle
    · refine ⟨other', Nat.le_refl _, ?_⟩
      rw [budget?_noteBudget_of_ne hid]
      exact hbudget.resolve_right fun hmem ↦ hid (Prod.ext_iff.1 (List.mem_singleton.1 hmem)).1

end Notes

end SizingPlan

namespace Regex

open List (Forall₂)

/-! ## The first round -/

mutual
/-- The targets that reach the backreferences of a tree when no group is held to a cap. -/
def shares : Regex → Nat → List (GroupId × Nat)
  | backref id _, target => [(id, target)]
  | sequence parts, target => sharesOfParts parts (Extent.splitTarget (extents parts) target)
  | choice options, target =>
      sharesOfOptions (max target (choice options).minLength) options target
  | repetition body least most _, target =>
      shares body (Extent.fitRepetition body.extent least most target).2
  | group kind body, target => if kind.isLookaround then [] else shares body target
  | _, _ => []

/-- The targets that reach the backreferences of parts in a row. -/
def sharesOfParts : List Regex → List Nat → List (GroupId × Nat)
  | part :: parts, target :: targets => shares part target ++ sharesOfParts parts targets
  | _, _ => []

/-- The targets that reach the backreferences of the options within reach. -/
def sharesOfOptions (reach : Nat) : List Regex → Nat → List (GroupId × Nat)
  | [], _ => []
  | option :: options, target =>
      if option.minLength ≤ reach then
        shares option target ++ sharesOfOptions reach options target
      else sharesOfOptions reach options target
end

/-- Without caps a group has the target itself. -/
theorem groupCap_none (number : Nat) (name : Option String) (target : Nat) :
    groupCap (fun _ ↦ none) number name target = target := by
  simp [groupCap]

/-- A capturing group is sized with its body, and the extent of the body is noted. -/
theorem resize_capturing (caps : GroupId → Option Nat) (number : Nat) (name : Option String)
    (body : Regex) (target : Nat) (plan : SizingPlan) :
    ((group (.capturing number name) body).resize caps target).run plan =
      (group (.capturing number name)
          ((body.resize caps (groupCap caps number name target)).run plan).1,
        ((body.resize caps (groupCap caps number name target)).run plan).2.noteGroups
          (groupIds number name)
          ((body.resize caps (groupCap caps number name target)).run plan).1.extent) :=
  rfl

/-- Sizing without caps notes the shares of a tree. -/
theorem notes_resize (tree : Regex) (target : Nat) (plan : SizingPlan) :
    plan.Notes (tree.shares target) ((tree.resize (fun _ ↦ none) target).run plan).2 := by
  induction tree generalizing target plan with
  | empty => exact .of_eq rfl
  | literal text ignoreCase => exact .of_eq rfl
  | set members => exact .of_eq rfl
  | sequence parts ih =>
    -- The budgets of the parts are arbitrary from here on: the parts are sized one after the other.
    rw [shares]
    show plan.Notes _ ((resizeParts (fun _ ↦ none) parts _).run plan).2
    generalize Extent.splitTarget (extents parts) target = targets
    induction parts generalizing targets plan with
    | nil => exact .of_eq rfl
    | cons part parts ihparts =>
      cases targets with
      | nil => exact .of_eq rfl
      | cons target targets =>
        exact (ih part (by simp) target plan).trans
          (ihparts (fun other hother ↦ ih other (List.mem_cons_of_mem _ hother)) _ _)
  | choice options ih =>
    rw [shares]
    show plan.Notes _ ((resizeOptions (fun _ ↦ none) _ options target).run plan).2
    generalize max target (choice options).minLength = reach
    induction options generalizing plan with
    | nil => exact .of_eq rfl
    | cons option options ihoptions =>
      have ihrest := ihoptions fun other hother ↦ ih other (List.mem_cons_of_mem _ hother)
      rw [sharesOfOptions, resizeOptions]
      split
      · exact (ih option (by simp) target plan).trans (ihrest _)
      · exact ihrest plan
  | repetition body least most mode ih => exact ih _ plan
  | group kind body ih =>
    cases kind with
    | capturing number name =>
      rw [resize_capturing, groupCap_none, ← List.append_nil (shares _ _)]
      exact (ih target plan).trans (.of_eq (SizingPlan.budgets_noteGroups ..))
    | plain => exact ih target plan
    | atomic => exact ih target plan
    | lookahead negated => exact .of_eq rfl
    | lookbehind negated => exact .of_eq rfl
  | backref id extent => exact .noteBudget plan id target

/-! ## Least lengths -/

mutual
/-- The tree and the trees inside it, those in assertions excepted. -/
def visible : Regex → List Regex
  | sequence parts => sequence parts :: visibleAll parts
  | choice options => choice options :: visibleAll options
  | repetition body least most mode => repetition body least most mode :: visible body
  | group kind body => group kind body :: if kind.isLookaround then [] else visible body
  | tree => [tree]

/-- Several trees and the trees inside them, those in assertions excepted. -/
def visibleAll : List Regex → List Regex
  | [] => []
  | tree :: trees => visible tree ++ visibleAll trees
end

/-- The trees inside several trees are those inside each. -/
theorem visibleAll_eq_flatMap (trees : List Regex) : visibleAll trees = trees.flatMap visible := by
  induction trees with
  | nil => rfl
  | cons tree trees ih => rw [visibleAll, ih, List.flatMap_cons]

/-- A tree is inside a sequence when it is the sequence or inside a part. -/
@[simp] theorem mem_visible_sequence {parts : List Regex} {node : Regex} :
    node ∈ (sequence parts).visible ↔
      node = sequence parts ∨ ∃ part ∈ parts, node ∈ part.visible := by
  rw [visible, visibleAll_eq_flatMap, List.mem_cons, List.mem_flatMap]

/-- A tree is inside a choice when it is the choice or inside an option. -/
@[simp] theorem mem_visible_choice {options : List Regex} {node : Regex} :
    node ∈ (choice options).visible ↔
      node = choice options ∨ ∃ option ∈ options, node ∈ option.visible := by
  rw [visible, visibleAll_eq_flatMap, List.mem_cons, List.mem_flatMap]

/-- A tree is inside a repetition when it is the repetition or inside its body. -/
@[simp] theorem mem_visible_repetition {body node : Regex} {least : Nat} {most : Bound}
    {mode : RepetitionMode} :
    node ∈ (repetition body least most mode).visible ↔
      node = repetition body least most mode ∨ node ∈ body.visible := by
  rw [visible, List.mem_cons]

/-- A tree is inside a group when it is the group or, unless the group is an assertion, inside its
body. -/
@[simp] theorem mem_visible_group {kind : GroupKind} {body node : Regex} :
    node ∈ (group kind body).visible ↔
      node = group kind body ∨ kind.isLookaround = false ∧ node ∈ body.visible := by
  rw [visible, List.mem_cons]
  cases kind.isLookaround <;> simp

/-- Something holds inside a sequence when it holds of the sequence and inside its parts. -/
theorem forall_visible_sequence {property : Regex → Prop} {parts : List Regex} :
    (∀ node ∈ (sequence parts).visible, property node) ↔
      property (sequence parts) ∧ ∀ part ∈ parts, ∀ node ∈ part.visible,
        property node := by
  simp only [mem_visible_sequence, forall_eq_or_imp]
  grind

/-- Something holds inside a choice when it holds of the choice and inside its options. -/
theorem forall_visible_choice {property : Regex → Prop} {options : List Regex} :
    (∀ node ∈ (choice options).visible, property node) ↔
      property (choice options) ∧ ∀ option ∈ options, ∀ node ∈ option.visible,
        property node := by
  simp only [mem_visible_choice, forall_eq_or_imp]
  grind

/-- Something holds inside a repetition when it holds of the repetition and inside its body. -/
theorem forall_visible_repetition {property : Regex → Prop} {body : Regex} {least : Nat}
    {most : Bound} {mode : RepetitionMode} :
    (∀ node ∈ (repetition body least most mode).visible, property node) ↔
      property (repetition body least most mode) ∧ ∀ node ∈ body.visible, property node := by
  simp only [mem_visible_repetition, forall_eq_or_imp]

/-- Something holds inside a group when it holds of the group and, unless the group is an assertion,
inside its body. -/
theorem forall_visible_group {property : Regex → Prop} {kind : GroupKind} {body : Regex} :
    (∀ node ∈ (group kind body).visible, property node) ↔
      property (group kind body) ∧
        (kind.isLookaround = false → ∀ node ∈ body.visible, property node) := by
  simp only [mem_visible_group, forall_eq_or_imp]
  grind

/-- A tree is inside itself. -/
theorem mem_visible_self (tree : Regex) : tree ∈ tree.visible := by
  cases tree <;> simp [visible]

/-- What holds everywhere in a tree holds everywhere in a part of it. -/
theorem Everywhere.of_mem_visible {property : Regex → Prop} {tree node : Regex}
    (h : tree.Everywhere property) (hnode : node ∈ tree.visible) : node.Everywhere property := by
  induction tree with
  | empty => exact List.mem_singleton.1 hnode ▸ h
  | literal text ignoreCase => exact List.mem_singleton.1 hnode ▸ h
  | set members => exact List.mem_singleton.1 hnode ▸ h
  | sequence parts ih =>
    rcases mem_visible_sequence.1 hnode with rfl | ⟨part, hpart, hnode⟩
    · exact h
    · exact ih part hpart ((everywhere_sequence.1 h).2 part hpart) hnode
  | choice options ih =>
    rcases mem_visible_choice.1 hnode with rfl | ⟨option, hoption, hnode⟩
    · exact h
    · exact ih option hoption ((everywhere_choice.1 h).2 option hoption) hnode
  | repetition body least most mode ih =>
    rcases mem_visible_repetition.1 hnode with rfl | hnode
    · exact h
    · exact ih h.2 hnode
  | group kind body ih =>
    rcases mem_visible_group.1 hnode with rfl | ⟨-, hnode⟩
    · exact h
    · exact ih h.2 hnode
  | backref id extent => exact List.mem_singleton.1 hnode ▸ h

/-- A part of a part is a part. -/
theorem mem_visible_trans {tree part node : Regex} (hnode : node ∈ part.visible)
    (hpart : part ∈ tree.visible) : node ∈ tree.visible := by
  induction tree with
  | empty => exact List.mem_singleton.1 hpart ▸ hnode
  | literal text ignoreCase => exact List.mem_singleton.1 hpart ▸ hnode
  | set members => exact List.mem_singleton.1 hpart ▸ hnode
  | sequence parts ih =>
    rcases mem_visible_sequence.1 hpart with rfl | ⟨other, hother, hpart⟩
    · exact hnode
    · exact mem_visible_sequence.2 (.inr ⟨other, hother, ih other hother hpart⟩)
  | choice options ih =>
    rcases mem_visible_choice.1 hpart with rfl | ⟨other, hother, hpart⟩
    · exact hnode
    · exact mem_visible_choice.2 (.inr ⟨other, hother, ih other hother hpart⟩)
  | repetition body least most mode ih =>
    rcases mem_visible_repetition.1 hpart with rfl | hpart
    · exact hnode
    · exact mem_visible_repetition.2 (.inr (ih hpart))
  | group kind body ih =>
    rcases mem_visible_group.1 hpart with rfl | ⟨hkind, hpart⟩
    · exact hnode
    · exact mem_visible_group.2 (.inr ⟨hkind, ih hpart⟩)
  | backref id extent => exact List.mem_singleton.1 hpart ▸ hnode

/-- What a repetition owes to sizing: it may be repeated at all, and the body has a length. -/
def CanRepeat : Regex → Prop
  | repetition body least most _ =>
      most.Allows (max least 1) ∧ least < Size.modulus ∧ body.extent.Valid
  | _ => True

/-- A share in a sequence is a share in one of the parts. -/
theorem exists_of_mem_sharesOfParts {parts : List Regex} {targets : List Nat}
    {share : GroupId × Nat} (h : share ∈ sharesOfParts parts targets) :
    ∃ part target, (part, target) ∈ parts.zip targets ∧ share ∈ part.shares target := by
  induction parts generalizing targets with
  | nil => cases h
  | cons part parts ih =>
    cases targets with
    | nil => cases h
    | cons target targets =>
      rcases List.mem_append.1 h with h | h
      · exact ⟨part, target, by simp, h⟩
      · obtain ⟨other, budget, hzip, hshare⟩ := ih h
        exact ⟨other, budget, List.mem_cons_of_mem _ hzip, hshare⟩

/-- A share in a choice is a share in one of the options within reach. -/
theorem exists_of_mem_sharesOfOptions {reach : Nat} {options : List Regex} {target : Nat}
    {share : GroupId × Nat} (h : share ∈ sharesOfOptions reach options target) :
    ∃ option ∈ options, option.minLength ≤ reach ∧ share ∈ option.shares target := by
  induction options with
  | nil => cases h
  | cons option options ih =>
    have hrest (h : share ∈ sharesOfOptions reach options target) :
        ∃ other ∈ option :: options, other.minLength ≤ reach ∧
          share ∈ other.shares target := by
      obtain ⟨other, hother, hfound⟩ := ih h
      exact ⟨other, List.mem_cons_of_mem _ hother, hfound⟩
    rw [sharesOfOptions] at h
    split at h
    · rename_i hreach
      rcases List.mem_append.1 h with h | h
      · exact ⟨option, by simp, hreach, h⟩
      · exact hrest h
    · exact hrest h

/-- The budgets of the parts of a sequence reach their least lengths. -/
theorem minLength_le_splitTarget (parts : List Regex) (target : Nat) :
    Forall₂ (fun part budget ↦ part.minLength ≤ budget) parts
      (Extent.splitTarget (extents parts) target) := by
  have hbudgets := Extent.min_le_splitTarget (extents parts) target
  rwa [extents_eq_map, List.forall₂_map_left_iff, ← extents_eq_map] at hbudgets

/-- No share is smaller than the least length that its backreference expects. -/
theorem min_le_of_mem_shares {tree : Regex} (hrepeat : ∀ node ∈ tree.visible, node.CanRepeat)
    {target : Nat} (hfloor : tree.minLength ≤ target) {id : GroupId} {share : Nat}
    (h : (id, share) ∈ tree.shares target) :
    ∃ extent, backref id extent ∈ tree.visible ∧ extent.min ≤ share := by
  induction tree generalizing target with
  | empty => cases h
  | literal text ignoreCase => cases h
  | set members => cases h
  | sequence parts ih =>
    rw [forall_visible_sequence] at hrepeat
    obtain ⟨part, budget, hzip, hshare⟩ := exists_of_mem_sharesOfParts h
    have hpart := (List.of_mem_zip hzip).1
    obtain ⟨extent, hvisible, hle⟩ := ih part hpart (hrepeat.2 part hpart)
      ((List.forall₂_iff_zip.1 (minLength_le_splitTarget parts target)).2 hzip) hshare
    exact ⟨extent, mem_visible_sequence.2 (.inr ⟨part, hpart, hvisible⟩), hle⟩
  | choice options ih =>
    rw [forall_visible_choice] at hrepeat
    obtain ⟨option, hoption, hreach, hshare⟩ := exists_of_mem_sharesOfOptions h
    rw [Nat.max_eq_left hfloor] at hreach
    obtain ⟨extent, hvisible, hle⟩ := ih option hoption (hrepeat.2 option hoption) hreach hshare
    exact ⟨extent, mem_visible_choice.2 (.inr ⟨option, hoption, hvisible⟩), hle⟩
  | repetition body least most mode ih =>
    rw [forall_visible_repetition] at hrepeat
    obtain ⟨⟨-, -, hvalid⟩, hbody⟩ := hrepeat
    obtain ⟨extent, hvisible, hle⟩ := ih hbody (Extent.min_le_fitRepetition _ _ _ hvalid) h
    exact ⟨extent, mem_visible_repetition.2 (.inr hvisible), hle⟩
  | group kind body ih =>
    rw [forall_visible_group] at hrepeat
    rw [shares] at h
    split at h
    · cases h
    · -- An assertion has no shares; every other group has the extent of its body.
      rename_i hkind
      rw [Bool.not_eq_true] at hkind
      have hfloor : body.minLength ≤ target := by
        rwa [minLength, extent, if_neg (by simp [hkind])] at hfloor
      obtain ⟨extent, hvisible, hle⟩ := ih (hrepeat.2 hkind) hfloor h
      exact ⟨extent, mem_visible_group.2 (.inr ⟨hkind, hvisible⟩), hle⟩
  | backref id' extent =>
    cases List.mem_singleton.1 h
    exact ⟨extent, mem_visible_self _, hfloor⟩

end Regex

end Exemplar
