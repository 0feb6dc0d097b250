import Exemplar.Proofs.Length.Budget
import Exemplar.Proofs.Regex.Everywhere
import Exemplar.Regex.Sized
import Mathlib.Data.List.Forall2

/-!
# The shape of a sized tree

Whatever the target and the budgets are, sizing keeps the shape of a tree: it drops options of a
choice, but not all of them, lowers the bounds of repetitions, but not below their least counts,
and changes the extents of backreferences. `IsSizing` names the trees that sizing can make of a
tree, and its inversion lemmas say what they look like.
-/

namespace Exemplar

namespace Regex

open List (Forall₂)

/-- The second tree is one that sizing makes of the first, for some target and some plan. -/
def IsSizing (caps : GroupId → Option Nat) (tree result : Regex) : Prop :=
  ∃ target plan, ((tree.resize caps target).run plan).1 = result

variable {caps : GroupId → Option Nat}

/-- In two lists that are related item by item, every item of the second has one in the first. -/
theorem exists_of_forall₂ {α β : Type} {related : α → β → Prop} {firsts : List α}
    {seconds : List β} (h : Forall₂ related firsts seconds) {second : β}
    (hsecond : second ∈ seconds) :
    ∃ first ∈ firsts, related first second := by
  induction h with
  | nil => cases hsecond
  | cons hhead htail ih =>
    rcases List.mem_cons.1 hsecond with rfl | hsecond
    · exact ⟨_, by simp, hhead⟩
    · obtain ⟨first, hfirst, hrelated⟩ := ih hsecond
      exact ⟨first, List.mem_cons_of_mem _ hfirst, hrelated⟩

/-- A sized tree is made by sizing. -/
theorem isSizing_sized (tree : Regex) (target : Nat) :
    ∃ caps, IsSizing caps tree (tree.sized target) :=
  ⟨_, target, {}, rfl⟩

/-- Sizing the tree for any target under a good plan relates what becomes of it to the tree, and
leaves a good plan. -/
def SizesTo (caps : GroupId → Option Nat) (related : Regex → Regex → Prop)
    (good : SizingPlan → Prop) (tree : Regex) : Prop :=
  ∀ ⦃target : Nat⦄ ⦃plan : SizingPlan⦄, good plan →
    related tree ((tree.resize caps target).run plan).1 ∧
    good ((tree.resize caps target).run plan).2

/-- Sizing a tree sizes it, whatever the plan is. -/
theorem sizesTo_isSizing (tree : Regex) : SizesTo caps (IsSizing caps) (fun _ ↦ True) tree :=
  fun target plan _ ↦ ⟨⟨target, plan, rfl⟩, trivial⟩

variable {related : Regex → Regex → Prop} {good : SizingPlan → Prop}
  {parts options : List Regex} {plan : SizingPlan}

/-- There is a target for each part of a sequence. -/
theorem length_splitTarget_extents (parts : List Regex) (target : Nat) :
    (Extent.splitTarget (extents parts) target).length = parts.length := by
  rw [Extent.length_splitTarget, extents_eq_map, List.length_map]

/-- Sizing parts in a row relates what becomes of them when sizing each part does. -/
theorem resizeParts_related (h : ∀ part ∈ parts, SizesTo caps related good part)
    {targets : List Nat} (hlength : targets.length = parts.length) (hplan : good plan) :
    Forall₂ related parts ((resizeParts caps parts targets).run plan).1 ∧
      good ((resizeParts caps parts targets).run plan).2 := by
  induction parts generalizing targets plan with
  | nil => exact ⟨.nil, hplan⟩
  | cons part parts ih =>
    obtain ⟨hpart, hparts⟩ := List.forall_mem_cons.1 h
    cases targets with
    | nil => cases hlength
    | cons target targets =>
      obtain ⟨hone, hmiddle⟩ := hpart hplan
      obtain ⟨hall, hafter⟩ := ih hparts (Nat.succ.inj hlength) hmiddle
      exact ⟨.cons hone hall, hafter⟩

/-- Sizing options relates what becomes of those within reach when sizing each option does. -/
theorem resizeOptions_related (h : ∀ option ∈ options, SizesTo caps related good option)
    (reach target : Nat) (hplan : good plan) :
    Forall₂ related (options.filter (·.minLength ≤ reach))
        ((resizeOptions caps reach options target).run plan).1 ∧
      good ((resizeOptions caps reach options target).run plan).2 := by
  induction options generalizing plan with
  | nil => exact ⟨.nil, hplan⟩
  | cons option options ih =>
    obtain ⟨hoption, hoptions⟩ := List.forall_mem_cons.1 h
    rw [resizeOptions]
    by_cases hreach : option.minLength ≤ reach
    · rw [if_pos hreach, List.filter_cons_of_pos (by simpa using hreach)]
      obtain ⟨hone, hmiddle⟩ := hoption hplan
      obtain ⟨hall, hafter⟩ := ih hoptions hmiddle
      exact ⟨.cons hone hall, hafter⟩
    · rw [if_neg hreach, List.filter_cons_of_neg (by simpa using hreach)]
      exact ih hoptions hplan

/-- No option is shorter than the choice can be. -/
theorem minLength_choice_le {options : List Regex} {option : Regex} (h : option ∈ options) :
    (choice options).minLength ≤ option.minLength := by
  rw [minLength, Regex.extent, extents_eq_map]
  exact (Extent.within_anyOf (List.mem_map_of_mem h)).floor_le

/-- Some option of a choice is as short as the choice can be. -/
theorem exists_minLength_le {options : List Regex} (h : options ≠ []) :
    ∃ option ∈ options, option.minLength ≤ (choice options).minLength := by
  obtain ⟨extent, hextent, hmin⟩ :=
    Extent.exists_min_eq_anyOf (show options.map Regex.extent ≠ [] by simpa using h)
  obtain ⟨option, hoption, rfl⟩ := List.mem_map.1 hextent
  refine ⟨option, hoption, Nat.le_of_eq ?_⟩
  rw [minLength, minLength, hmin, Regex.extent, extents_eq_map]

namespace IsSizing

variable {tree result body : Regex}

/-- The empty string stays as it is. -/
theorem eq_empty (h : IsSizing caps empty result) : result = empty := by
  obtain ⟨target, plan, rfl⟩ := h
  rfl

/-- A literal stays as it is. -/
theorem eq_literal {text : List Char} {ignoreCase : Bool}
    (h : IsSizing caps (literal text ignoreCase) result) : result = literal text ignoreCase := by
  obtain ⟨target, plan, rfl⟩ := h
  rfl

/-- A set stays as it is. -/
theorem eq_set {members : CharSet} (h : IsSizing caps (set members) result) :
    result = set members := by
  obtain ⟨target, plan, rfl⟩ := h
  rfl

/-- The parts of a sequence are sized one by one. -/
theorem exists_parts (h : IsSizing caps (sequence parts) result) :
    ∃ parts', result = sequence parts' ∧ Forall₂ (IsSizing caps) parts parts' := by
  obtain ⟨target, plan, rfl⟩ := h
  exact ⟨_, rfl, (resizeParts_related (fun part _ ↦ sizesTo_isSizing part)
    (length_splitTarget_extents ..) trivial).1⟩

/-- Some options of a choice are kept, and they are sized one by one. -/
theorem exists_options (h : IsSizing caps (choice options) result) :
    ∃ kept options', result = choice options' ∧ (∀ option ∈ kept, option ∈ options) ∧
      (options ≠ [] → kept ≠ []) ∧ Forall₂ (IsSizing caps) kept options' := by
  obtain ⟨target, plan, rfl⟩ := h
  refine ⟨_, _, rfl, fun option hoption ↦ (List.mem_filter.1 hoption).1, ?_,
    (resizeOptions_related (fun option _ ↦ sizesTo_isSizing option) _ target trivial).1⟩
  intro hoptions
  obtain ⟨option, hoption, hmin⟩ := exists_minLength_le hoptions
  refine List.ne_nil_of_mem (List.mem_filter.2 ⟨hoption, ?_⟩)
  simpa using Nat.le_trans hmin (Nat.le_max_right ..)

/-- The body of a repetition is sized, and no count is allowed that was not allowed before. -/
theorem exists_body {least : Nat} {most : Bound} {mode : RepetitionMode}
    (h : IsSizing caps (repetition body least most mode) result) :
    ∃ body' count, result = repeated body' least count mode ∧ IsSizing caps body body' ∧
      (most.Allows least → least < Size.modulus →
        ∀ number, (count.raise least).Allows number → most.Allows number) := by
  obtain ⟨target, plan, rfl⟩ := h
  exact ⟨_, _, rfl, ⟨_, plan, rfl⟩,
    fun hmost hleast _ ↦ Extent.allows_of_allows_fitRepetition hmost hleast⟩

/-- The body of a group is sized, unless the group is an assertion. -/
theorem exists_group {kind : GroupKind} (h : IsSizing caps (group kind body) result) :
    ∃ body', result = group kind body' ∧
      (kind.isLookaround = false → IsSizing caps body body') ∧
      (kind.isLookaround = true → body' = body) := by
  obtain ⟨target, plan, rfl⟩ := h
  cases kind with
  | capturing number name =>
    exact ⟨_, rfl, fun _ ↦ ⟨_, plan, rfl⟩, fun h ↦ absurd h Bool.false_ne_true⟩
  | plain =>
    exact ⟨_, rfl, fun _ ↦ ⟨target, plan, rfl⟩, fun h ↦ absurd h Bool.false_ne_true⟩
  | atomic =>
    exact ⟨_, rfl, fun _ ↦ ⟨target, plan, rfl⟩, fun h ↦ absurd h Bool.false_ne_true⟩
  | lookahead negated =>
    exact ⟨body, rfl, fun h ↦ absurd h Bool.false_ne_true.symm, fun _ ↦ rfl⟩
  | lookbehind negated =>
    exact ⟨body, rfl, fun h ↦ absurd h Bool.false_ne_true.symm, fun _ ↦ rfl⟩

/-- A backreference goes to the same group. -/
theorem exists_backref {id : GroupId} {extent : Extent}
    (h : IsSizing caps (backref id extent) result) : ∃ extent', result = backref id extent' := by
  obtain ⟨target, plan, rfl⟩ := h
  exact ⟨_, rfl⟩

/-- Sizing keeps a tree well-formed. -/
theorem wellFormed (h : IsSizing caps tree result) (hwell : tree.WellFormed) :
    result.WellFormed := by
  -- Every tree in a list that was sized tree by tree is sized from a tree of the other list.
  have hlist {trees results : List Regex} (hforall : Forall₂ (IsSizing caps) trees results)
      (ih : ∀ tree ∈ trees, ∀ result, IsSizing caps tree result → result.WellFormed) :
      ∀ result ∈ results, result.WellFormed := by
    intro result hresult
    obtain ⟨tree, htree, hsizing⟩ := exists_of_forall₂ hforall hresult
    exact ih tree htree result hsizing
  induction tree generalizing result with
  | empty => exact h.eq_empty ▸ trivial
  | literal text ignoreCase => exact h.eq_literal ▸ trivial
  | set members => exact h.eq_set ▸ trivial
  | sequence parts ih =>
    rw [wellFormed_sequence] at hwell
    obtain ⟨parts', rfl, hparts⟩ := h.exists_parts
    exact wellFormed_sequence.2
      (hlist hparts fun part hpart result hsizing ↦ ih part hpart hsizing (hwell part hpart))
  | choice options ih =>
    rw [wellFormed_choice] at hwell
    obtain ⟨kept, options', rfl, hsub, hne, hoptions⟩ := h.exists_options
    refine wellFormed_choice.2 ⟨?_, hlist hoptions fun option hoption result hsizing ↦
      ih option (hsub option hoption) hsizing (hwell.2 option (hsub option hoption))⟩
    rintro rfl
    exact hne hwell.1 (List.forall₂_nil_right_iff.1 hoptions)
  | repetition body least most mode ih =>
    rw [wellFormed_repetition] at hwell
    obtain ⟨body', count, rfl, hbody, -⟩ := h.exists_body
    exact wellFormed_repeated (ih hbody hwell.2) hwell.1.2 count mode
  | group kind body ih =>
    rw [wellFormed_group] at hwell
    obtain ⟨body', rfl, hbody, hsame⟩ := h.exists_group
    rw [wellFormed_group]
    cases hkind : kind.isLookaround with
    | false => exact ih (hbody hkind) hwell
    | true => exact hsame hkind ▸ hwell
  | backref id extent =>
    obtain ⟨extent', rfl⟩ := h.exists_backref
    exact trivial

end IsSizing

/-- Sizing for a target keeps a tree well-formed. -/
theorem WellFormed.sized {tree : Regex} (h : tree.WellFormed) (target : Nat) :
    (tree.sized target).WellFormed := by
  obtain ⟨caps, hsizing⟩ := isSizing_sized tree target
  exact hsizing.wellFormed h

end Regex

end Exemplar
