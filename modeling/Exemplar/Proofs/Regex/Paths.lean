import Exemplar.Proofs.Regex.Numbers
import Mathlib.Data.List.Lex

/-!
# Paths in a tree

A path leads from the root of a tree to one of its nodes: it lists which child to take at each node
on the way, counted from zero. The lexicographic order of paths is the order in which the nodes
begin, where a node comes before the nodes below it, and a path that begins with another one leads
below that node.

The nodes outside of assertions are those to which a path leads that does not pass through an
assertion (`exists_path_of_mem_visible`). Where the numbers of the capturing groups increase as
they are listed, they increase along the paths (`number_lt_of_path_lt`).
-/

namespace Exemplar.Regex

/-- The trees right below the root. -/
def children : Regex → List Regex
  | sequence parts => parts
  | choice options => options
  | repetition body .. => [body]
  | group _ body => [body]
  | _ => []

/-- Whether the tree is a lookahead or a lookbehind. -/
def isAssertion : Regex → Bool
  | group kind _ => kind.isLookaround
  | _ => false

/-- The node to which a path leads. -/
def at? (tree : Regex) : List Nat → Option Regex
  | [] => some tree
  | index :: path => tree.children[index]?.bind fun child ↦ child.at? path

/-- The path passes through an assertion on its way. -/
def IsInAssertion (tree : Regex) (path : List Nat) : Prop :=
  ∃ outer node, outer <+: path ∧ outer ≠ path ∧ tree.at? outer = some node ∧
    node.isAssertion = true

variable {tree child node : Regex} {index : Nat} {path : List Nat}

/-- A path that is not empty leads to a child first. -/
theorem at?_cons_eq_some :
    tree.at? (index :: path) = some node ↔
      ∃ child, tree.children[index]? = some child ∧ child.at? path = some node := by
  rw [at?, Option.bind_eq_some_iff]

/-- The empty path passes through nothing. -/
theorem not_isInAssertion_nil (tree : Regex) : ¬ tree.IsInAssertion [] := by
  rintro ⟨outer, node, hprefix, hne, -, -⟩
  exact hne (List.prefix_nil.1 hprefix)

/-- There is a node above a path with a property when the root has it, or a node above the rest of
the path. -/
theorem exists_above_cons {property : Regex → Prop}
    (hchild : tree.children[index]? = some child) :
    (∃ outer node, outer <+: index :: path ∧ outer ≠ index :: path ∧
      tree.at? outer = some node ∧ property node) ↔
      property tree ∨
        ∃ outer node, outer <+: path ∧ outer ≠ path ∧ child.at? outer = some node ∧
          property node := by
  constructor
  · rintro ⟨outer, node, hprefix, hne, hnode, hproperty⟩
    cases outer with
    | nil =>
      cases hnode
      exact .inl hproperty
    | cons first outer =>
      obtain ⟨rfl, hrest⟩ := List.cons_prefix_cons.1 hprefix
      obtain ⟨other, hother, hnode⟩ := at?_cons_eq_some.1 hnode
      rw [hchild] at hother
      cases hother
      exact .inr ⟨outer, node, hrest, fun heq ↦ hne (heq ▸ rfl), hnode, hproperty⟩
  · rintro (hproperty | ⟨outer, node, hprefix, hne, hnode, hproperty⟩)
    · exact ⟨[], tree, List.nil_prefix, by simp, rfl, hproperty⟩
    · exact ⟨index :: outer, node, List.cons_prefix_cons.2 ⟨rfl, hprefix⟩,
        by simpa using hne,
        at?_cons_eq_some.2 ⟨child, hchild, hnode⟩, hproperty⟩

/-- A path passes through an assertion when it begins at one, or when the rest of it passes through
one. -/
theorem isInAssertion_cons (hchild : tree.children[index]? = some child) :
    tree.IsInAssertion (index :: path) ↔ tree.isAssertion = true ∨ child.IsInAssertion path :=
  exists_above_cons hchild

/-- A path comes before another one when it takes an earlier child first, or when its rest comes
before. -/
theorem cons_path_le_cons {index' : Nat} {path' : List Nat} :
    index :: path ≤ index' :: path' ↔ index < index' ∨ index = index' ∧ path ≤ path' := by
  rw [← not_lt, ← not_lt, List.cons_lt_cons_iff]
  grind

/-! ## Nodes on paths -/

/-- A property holds of every tree when a tree inherits it from its children. -/
theorem children_induction {motive : Regex → Prop}
    (h : ∀ tree, (∀ child ∈ tree.children, motive child) → motive tree)
    (tree : Regex) : motive tree := by
  induction tree with
  | empty => exact h _ (by simp [children])
  | literal text ignoreCase => exact h _ (by simp [children])
  | set members => exact h _ (by simp [children])
  | sequence parts ih => exact h _ ih
  | choice options ih => exact h _ ih
  | repetition body least most mode ih => exact h _ (by simpa [children] using ih)
  | group kind body ih => exact h _ (by simpa [children] using ih)
  | backref id extent => exact h _ (by simp [children])

/-- A node is outside of assertions when it is the root, or outside of the assertions of a child of
a root that is none. -/
theorem mem_visible_iff :
    node ∈ tree.visible ↔
      node = tree ∨ tree.isAssertion = false ∧ ∃ child ∈ tree.children,
      node ∈ child.visible := by
  cases tree with
  | sequence parts => simp [isAssertion, children]
  | choice options => simp [isAssertion, children]
  | repetition body least most mode => simp [isAssertion, children]
  | group kind body => simp [isAssertion, children]
  | _ => simp [visible, children]

/-- A path outside of assertions leads to every node that is outside of them. -/
theorem exists_path_of_mem_visible (h : node ∈ tree.visible) :
    ∃ path, tree.at? path = some node ∧ ¬ tree.IsInAssertion path := by
  induction tree using children_induction with
  | h tree ih =>
    rcases mem_visible_iff.1 h with rfl | ⟨hassertion, child, hchild, hnode⟩
    · exact ⟨[], rfl, not_isInAssertion_nil _⟩
    · obtain ⟨path, hpath, houtside⟩ := ih child hchild hnode
      obtain ⟨index, hindex⟩ := List.mem_iff_getElem?.1 hchild
      refine ⟨index :: path, at?_cons_eq_some.2 ⟨child, hindex, hpath⟩, ?_⟩
      rw [isInAssertion_cons hindex, hassertion]
      simpa using houtside

/-- What holds everywhere in a tree holds everywhere in its children. -/
theorem Everywhere.of_mem_children {property : Regex → Prop} (h : tree.Everywhere property)
    (hchild : child ∈ tree.children) : child.Everywhere property := by
  cases tree with
  | sequence parts => exact (everywhere_sequence.1 h).2 child hchild
  | choice options => exact (everywhere_choice.1 h).2 child hchild
  | repetition body least most mode =>
    cases List.mem_singleton.1 hchild
    exact (everywhere_repetition.1 h).2
  | group kind body =>
    cases List.mem_singleton.1 hchild
    exact (everywhere_group.1 h).2
  | _ => cases hchild

/-- What holds everywhere in a tree holds of the node to which a path leads. -/
theorem Everywhere.of_at? {property : Regex → Prop} (h : tree.Everywhere property)
    (hnode : tree.at? path = some node) : property node := by
  induction path generalizing tree with
  | nil =>
    cases hnode
    exact h.here
  | cons index path ih =>
    obtain ⟨child, hchild, hnode⟩ := at?_cons_eq_some.1 hnode
    exact ih (h.of_mem_children (List.mem_of_getElem? hchild)) hnode

/-! ## The order of groups -/

/-- The number of the tree itself, if it is a capturing group. -/
def ownNumbers : Regex → List Nat
  | group kind _ => kind.numbers
  | _ => []

/-- The number of a tree itself is listed before those of its children. -/
theorem groupNumbers_eq (tree : Regex) :
    tree.groupNumbers = tree.ownNumbers ++ groupNumbersOfAll tree.children := by
  cases tree <;> simp [groupNumbers, ownNumbers, children, groupNumbersOfAll]

/-- The number of a capturing group to which a path leads is listed. -/
theorem mem_groupNumbers_of_at? {number : Nat} {name : Option String} {body : Regex}
    (h : tree.at? path = some (group (.capturing number name) body)) :
    number ∈ tree.groupNumbers := by
  induction path generalizing tree with
  | nil =>
    cases h
    exact List.mem_cons_self
  | cons index path ih =>
    obtain ⟨child, hchild, hgroup⟩ := at?_cons_eq_some.1 h
    rw [groupNumbers_eq]
    have hlisted := groupNumbers_sublist_of_mem (List.mem_of_getElem? hchild)
    exact List.mem_append_right _ (hlisted.mem (ih hgroup))

/-- Where the numbers of the groups increase as they are listed, a group that begins before another
one has the smaller number. -/
theorem number_lt_of_path_lt (h : tree.groupNumbers.Pairwise (· < ·)) {path' : List Nat}
    {number number' : Nat} {name name' : Option String} {body body' : Regex}
    (hgroup : tree.at? path = some (group (.capturing number name) body))
    (hgroup' : tree.at? path' = some (group (.capturing number' name') body'))
    (hlt : path < path') :
    number < number' := by
  induction path generalizing tree path' with
  | nil =>
    cases hgroup
    cases path' with
    | nil => exact absurd hlt (List.lt_irrefl [])
    | cons index path' =>
      obtain ⟨child, hchild, hgroup'⟩ := at?_cons_eq_some.1 hgroup'
      cases List.mem_singleton.1 (List.mem_of_getElem? hchild)
      exact (List.pairwise_cons.1 h).1 _ (mem_groupNumbers_of_at? hgroup')
  | cons index path ih =>
    cases path' with
    | nil => exact absurd hlt (List.not_lt_nil _)
    | cons index' path' =>
      obtain ⟨child, hchild, hgroup⟩ := at?_cons_eq_some.1 hgroup
      obtain ⟨child', hchild', hgroup'⟩ := at?_cons_eq_some.1 hgroup'
      rw [groupNumbers_eq, groupNumbersOfAll_eq_flatMap] at h
      obtain ⟨hinside, hacross⟩ := List.pairwise_flatMap.1 (List.pairwise_append.1 h).2.1
      rcases List.cons_lt_cons_iff.1 hlt with hindex | ⟨rfl, hrest⟩
      · -- The groups are in different children.
        obtain ⟨hsize, rfl⟩ := List.getElem?_eq_some_iff.1 hchild
        obtain ⟨hsize', rfl⟩ := List.getElem?_eq_some_iff.1 hchild'
        exact List.pairwise_iff_getElem.1 hacross index index' hsize hsize' hindex _
          (mem_groupNumbers_of_at? hgroup) _ (mem_groupNumbers_of_at? hgroup')
      · rw [hchild] at hchild'
        cases hchild'
        exact ih (hinside child (List.mem_of_getElem? hchild)) hgroup hgroup' hrest

end Exemplar.Regex
