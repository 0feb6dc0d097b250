import Exemplar.Proofs.Regex.Paths
import Exemplar.Proofs.Regex.Possible

/-!
# Mandatory nodes

A node demands what is right below it unless it can do without: a repetition that may have no
copies, an assertion that something is absent, and a choice with an option that is possible demand
nothing. A node is mandatory when all nodes above it demand what is below them (`IsMandatory`).

A tree is impossible just when one of its sets without members is mandatory (`prune_eq_none_iff`).
-/

namespace Exemplar.Regex

/-- The node cannot do without what is right below it. -/
def Demands : Regex → Prop
  | choice options => ∀ option ∈ options, option.prune = none
  | repetition _ least _ _ => least ≠ 0
  | group kind _ => kind.isNegated = false
  | _ => True

/-- All nodes above the one at the path demand what is below them. -/
def IsMandatory (tree : Regex) (path : List Nat) : Prop :=
  ∀ outer node, outer <+: path → outer ≠ path → tree.at? outer = some node → node.Demands

/-- The path leads to a set without members. -/
def HasEmptySetAt (tree : Regex) (path : List Nat) : Prop :=
  ∃ members, tree.at? path = some (set members) ∧ members.isEmpty = true

variable {tree child : Regex} {index : Nat} {path : List Nat} {parts : List Regex}

/-- A node is mandatory when no node above it can do without what is below. -/
theorem isMandatory_iff :
    tree.IsMandatory path ↔
      ¬ ∃ outer node, outer <+: path ∧ outer ≠ path ∧ tree.at? outer = some node ∧
      ¬ node.Demands := by
  push Not
  exact .rfl

/-- There is nothing above the root. -/
theorem isMandatory_nil (tree : Regex) : tree.IsMandatory [] := by
  rintro outer node hprefix hne -
  exact absurd (List.prefix_nil.1 hprefix) hne

/-- A node below a child is mandatory when the root demands the child and the node is mandatory in
it. -/
theorem isMandatory_cons (hchild : tree.children[index]? = some child) :
    tree.IsMandatory (index :: path) ↔ tree.Demands ∧ child.IsMandatory path := by
  rw [isMandatory_iff, isMandatory_iff, exists_above_cons hchild, not_or, not_not]

/-! ## Impossible trees -/

/-- A row of trees is impossible when one of them is. -/
theorem pruneEach_eq_none_iff :
    pruneEach parts = none ↔ ∃ part ∈ parts, part.prune = none := by
  induction parts with
  | nil => simp [pruneEach]
  | cons part parts ih =>
    rw [pruneEach, List.exists_mem_cons_iff, ← ih]
    cases part.prune <;> cases pruneEach parts <;> simp

/-- A tree without children is impossible when it is a set without members. -/
theorem prune_eq_none_iff_of_leaf (hwell : tree.WellFormed) (h : tree.children = []) :
    tree.prune = none ↔ ∃ members, tree = set members ∧ members.isEmpty = true := by
  cases tree with
  | set members => simp [prune]
  | sequence parts =>
    cases h
    simp [prune, pruneEach]
  | choice options =>
    cases h
    exact absurd rfl (wellFormed_choice.1 hwell).1
  | repetition body least most mode => cases h
  | group kind body => cases h
  | _ => simp [prune]

/-- A tree with children is impossible when it demands them and one of them is impossible. -/
theorem prune_eq_none_iff_of_children (hwell : tree.WellFormed) (h : tree.children ≠ []) :
    tree.prune = none ↔ tree.Demands ∧ ∃ child ∈ tree.children, child.prune = none := by
  cases tree with
  | sequence parts =>
    rw [prune, Option.map_eq_none_iff, pruneEach_eq_none_iff]
    exact (and_iff_right trivial).symm
  | choice options =>
    have hsome : ∃ option, option ∈ options := List.exists_mem_of_ne_nil options h
    have hnone : (choice options).prune = none ↔ ∀ option ∈ options, option.prune = none := by
      rw [prune, pruneAny_eq_filterMap, ← List.filterMap_eq_nil_iff]
      cases options.filterMap prune <;> simp
    rw [hnone]
    refine ⟨fun hall ↦ ⟨hall, ?_⟩, And.left⟩
    obtain ⟨option, hoption⟩ := hsome
    exact ⟨option, hoption, hall option hoption⟩
  | repetition body least most mode =>
    cases hbody : body.prune with
    | some rest => simp [prune, hbody, children]
    | none => simp [prune, hbody, children, Demands]
  | group kind body =>
    cases hnegated : kind.isNegated <;> simp [prune, hnegated, children, Demands]
  | _ => exact absurd rfl h

/-- A tree is impossible just when one of its sets without members is mandatory. -/
theorem prune_eq_none_iff (hwell : tree.WellFormed) :
    tree.prune = none ↔ ∃ path, tree.HasEmptySetAt path ∧ tree.IsMandatory path := by
  induction tree using children_induction with
  | h tree ih =>
    by_cases hleaf : tree.children = []
    · rw [prune_eq_none_iff_of_leaf hwell hleaf]
      constructor
      · rintro ⟨members, rfl, hempty⟩
        exact ⟨[], ⟨members, rfl, hempty⟩, isMandatory_nil _⟩
      · rintro ⟨path, ⟨members, hat, hempty⟩, -⟩
        cases path with
        | nil => exact ⟨members, Option.some.inj hat, hempty⟩
        | cons index path =>
          obtain ⟨child, hchild, -⟩ := at?_cons_eq_some.1 hat
          rw [hleaf] at hchild
          cases hchild
    · rw [prune_eq_none_iff_of_children hwell hleaf]
      constructor
      · rintro ⟨hdemands, child, hchild, hnone⟩
        obtain ⟨path, ⟨members, hat, hempty⟩, hmandatory⟩ :=
          (ih child hchild (hwell.of_mem_children hchild)).1 hnone
        obtain ⟨index, hindex⟩ := List.mem_iff_getElem?.1 hchild
        exact ⟨index :: path, ⟨members, at?_cons_eq_some.2 ⟨child, hindex, hat⟩, hempty⟩,
          (isMandatory_cons hindex).2 ⟨hdemands, hmandatory⟩⟩
      · rintro ⟨path, ⟨members, hat, hempty⟩, hmandatory⟩
        cases path with
        | nil =>
          obtain rfl := Option.some.inj hat
          exact absurd rfl hleaf
        | cons index path =>
          obtain ⟨child, hchild, hat⟩ := at?_cons_eq_some.1 hat
          obtain ⟨hdemands, hmandatory⟩ := (isMandatory_cons hchild).1 hmandatory
          have hmem : child ∈ tree.children := List.mem_of_getElem? hchild
          exact ⟨hdemands, child, hmem,
            (ih child hmem (hwell.of_mem_children hmem)).2
              ⟨path, ⟨members, hat, hempty⟩, hmandatory⟩⟩

end Exemplar.Regex
