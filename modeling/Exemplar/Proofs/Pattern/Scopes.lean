import Exemplar.Proofs.Generation.Reach
import Exemplar.Proofs.Grammar.Numbering
import Exemplar.Proofs.Pattern.Strings
import Exemplar.Proofs.Regex.Paths

/-!
# Groups and backreferences are in scope

The tree of a pattern that compiles is well scoped (`isScoped_of_compile`): the numbers of its
capturing groups increase in the order in which the groups begin, no two groups share a name, and a
backreference outside of assertions leads to a capturing group that ends before it.

The numbers are those that reading gives, and pruning and simplification keep their order. That the
group of a backreference is still there, and where, follows from what a reference finds when it is
reached: the tree is safe, so there is a text for the group, and only a group that was completed on
the way can have left one (`exists_earlier_of_backref`).
-/

namespace Exemplar

namespace Regex

/-- A capturing group to which the reference leads begins before the path and does not contain the
node there, and it is outside of assertions. -/
def HasEarlierGroup (tree : Regex) (id : GroupId) (path : List Nat) : Prop :=
  ∃ earlier number name body, tree.at? earlier = some (group (.capturing number name) body) ∧
    id ∈ groupIds number name ∧ earlier < path ∧ ¬ earlier <+: path ∧
    ¬ tree.IsInAssertion earlier

/-- The capturing groups of a tree are numbered in the order in which they begin, their names are
different, and the backreferences outside of assertions lead to groups that end before them. -/
structure IsScoped (tree : Regex) : Prop where
  numbers {path path' : List Nat} {number number' : Nat} {name name' : Option String}
    {body body' : Regex} : tree.at? path = some (group (.capturing number name) body) →
    tree.at? path' = some (group (.capturing number' name') body') → path < path' →
    number < number'
  names {path path' : List Nat} {number number' : Nat} {name : String} {body body' : Regex} :
    tree.at? path = some (group (.capturing number (some name)) body) →
    tree.at? path' = some (group (.capturing number' (some name)) body') → path = path'
  references {path : List Nat} {id : GroupId} {extent : Extent} :
    tree.at? path = some (backref id extent) → ¬ tree.IsInAssertion path →
    tree.HasEarlierGroup id path

variable {tree child : Regex} {index : Nat} {path : List Nat} {id : GroupId} {before : Captures}

/-- A group that is earlier in a child is earlier in the tree. -/
theorem HasEarlierGroup.of_child (h : child.HasEarlierGroup id path)
    (hassertion : tree.isAssertion = false) (hchild : tree.children[index]? = some child) :
    tree.HasEarlierGroup id (index :: path) := by
  obtain ⟨earlier, number, name, body, hgroup, hid, hlt, hprefix, houtside⟩ := h
  refine ⟨index :: earlier, number, name, body,
    at?_cons_eq_some.2 ⟨child, hchild, hgroup⟩, hid,
    List.cons_lt_cons_iff.2 (.inr ⟨rfl, hlt⟩), fun h ↦
      hprefix (List.cons_prefix_cons.1 h).2, ?_⟩
  rw [isInAssertion_cons hchild, hassertion]
  simpa using houtside

/-- A group in an earlier child is earlier in the tree. -/
theorem HasEarlierGroup.of_sibling {earlier : Nat} {sibling node : Regex} (hlt : earlier < index)
    (hassertion : tree.isAssertion = false) (hsibling : tree.children[earlier]? = some sibling)
    (hnode : node ∈ sibling.visible) (hgroup : node.IsGroupOf id) :
    tree.HasEarlierGroup id (index :: path) := by
  obtain ⟨inner, hinner, houtside⟩ := exists_path_of_mem_visible hnode
  match node, hgroup with
  | group (.capturing number name) body, hid =>
    refine ⟨earlier :: inner, number, name, body,
      at?_cons_eq_some.2 ⟨sibling, hsibling, hinner⟩, hid, List.cons_lt_cons_iff.2 (.inl hlt),
      fun h ↦ hlt.ne (List.cons_prefix_cons.1 h).1, ?_⟩
    rw [isInAssertion_cons hsibling, hassertion]
    simpa using houtside

/-- The captures have texts only for groups that had one before, and for groups in the parts before
a given one. -/
def ComeFrom (parts : List Regex) (index : Nat) (before captures : Captures) : Prop :=
  ∀ ⦃id : GroupId⦄, (captures.find? id).isSome = true → (before.find? id).isSome = true ∨
    ∃ earlier < index, ∃ sibling, parts[earlier]? = some sibling ∧
      ∃ node ∈ sibling.visible, node.IsGroupOf id

/-- Captures come from themselves. -/
theorem comeFrom_refl (parts : List Regex) (index : Nat) (before : Captures) :
    ComeFrom parts index before before :=
  fun _ ↦ .inl

/-- Every one of some safe parts in a row is safe behind captures that come from the parts before
it. -/
theorem exists_safe_of_part {parts : List Regex} (hwell : ∀ part ∈ parts, part.WellFormed)
    (hsafe : SafeAll parts before) {part : Regex} (hpart : parts[index]? = some part) :
    ∃ captures, part.Safe captures ∧ ComeFrom parts index before captures := by
  induction parts generalizing before index with
  | nil => cases hpart
  | cons head parts ih =>
    cases index with
    | zero =>
      cases hpart
      exact ⟨before, hsafe.1, comeFrom_refl ..⟩
    | succ index =>
      obtain ⟨hhead, hparts⟩ := List.forall_mem_cons.1 hwell
      -- The parts behind the first one are safe behind each of its texts, and it has one.
      obtain ⟨text, middle, hemits⟩ := exists_emits hhead hsafe.1
      obtain ⟨captures, hcaptures, hfrom⟩ := ih hparts (hsafe.2 hemits) hpart
      refine ⟨captures, hcaptures, fun id hfound ↦ ?_⟩
      rcases hfrom hfound with hmiddle | ⟨earlier, hlt, hsibling⟩
      · refine (hemits.exists_group hmiddle).imp_right fun hgroup ↦ ?_
        exact ⟨0, Nat.succ_pos index, head, rfl, hgroup⟩
      · exact .inr ⟨earlier + 1, Nat.succ_lt_succ hlt, hsibling⟩

/-- Every child of a safe tree in normal form is safe behind captures that come from the children
before it, if the tree is no assertion. -/
theorem exists_safe_of_child (hnormal : tree.Everywhere IsNormal) (hwell : tree.WellFormed)
    (hsafe : tree.Safe before) (hassertion : tree.isAssertion = false)
    (hchild : tree.children[index]? = some child) :
    ∃ captures, child.Safe captures ∧ ComeFrom tree.children index before captures := by
  cases tree with
  | sequence parts =>
    rw [wellFormed_sequence] at hwell
    exact exists_safe_of_part hwell hsafe hchild
  | choice options =>
    have hoption := safeEach_iff.1 hsafe child (List.mem_of_getElem? hchild)
    exact ⟨before, hoption, comeFrom_refl ..⟩
  | repetition body least most mode =>
    cases List.mem_singleton.1 (List.mem_of_getElem? hchild)
    obtain ⟨⟨-, hsome, -⟩, -⟩ := everywhere_repetition.1 hnormal
    exact ⟨before, hsafe.of_repetition hsome, comeFrom_refl ..⟩
  | group kind body =>
    cases List.mem_singleton.1 (List.mem_of_getElem? hchild)
    exact ⟨before, hsafe.of_group hassertion, comeFrom_refl ..⟩
  | _ => cases hchild

/-- A backreference outside of assertions, in a safe tree in normal form, leads to a group with a
text from before the tree or to an earlier group of the tree. -/
theorem exists_earlier_of_backref (hnormal : tree.Everywhere IsNormal) (hwell : tree.WellFormed)
    (hsafe : tree.Safe before) {extent : Extent}
    (hbackref : tree.at? path = some (backref id extent)) (houtside : ¬ tree.IsInAssertion path) :
    (before.find? id).isSome = true ∨ tree.HasEarlierGroup id path := by
  induction path generalizing tree before with
  | nil =>
    cases hbackref
    exact .inl hsafe
  | cons index path ih =>
    obtain ⟨child, hchild, hbackref⟩ := at?_cons_eq_some.1 hbackref
    rw [isInAssertion_cons hchild, not_or, Bool.not_eq_true] at houtside
    obtain ⟨hassertion, houtside⟩ := houtside
    have hmem := List.mem_of_getElem? hchild
    obtain ⟨captures, hcaptures, hfrom⟩ :=
      exists_safe_of_child hnormal hwell hsafe hassertion hchild
    rcases ih (hnormal.of_mem_children hmem)
      (Everywhere.of_mem_children hwell hmem) hcaptures hbackref houtside with hfound | hearlier
    · refine (hfrom hfound).imp_right ?_
      rintro ⟨earlier, hlt, sibling, hsibling, node, hnode, hgroup⟩
      exact .of_sibling hlt hassertion hsibling hnode hgroup
    · exact .inr (hearlier.of_child hassertion hchild)

end Regex

namespace Pattern

variable {text : String} {flags : Flags} {pattern : Pattern}

/-- The tree of a pattern that compiles is well scoped. -/
theorem isScoped_of_compile (h : compile text flags = .ok pattern) : pattern.root.IsScoped := by
  have hwell := wellFormed_of_compile h
  have hsafe := safe_of_compile h
  obtain ⟨tree, hparse, rfl⟩ := compile_eq_ok h
  obtain ⟨groups, hfits⟩ := Regex.exists_fits_of_parse hparse
  have hnormal := tree.isNormal_simplify
  have hfits := (groups.stable_fits.simplify hfits).1
  have hincreasing := (Regex.groupNumbers_pairwise_of_parse hparse).sublist
    (Regex.groupNumbers_simplify_sublist tree)
  refine ⟨Regex.number_lt_of_path_lt hincreasing, ?_, ?_⟩
  · intro path path' number number' name body body' hgroup hgroup'
    -- The name leads to one number, so neither of the groups begins before the other one.
    have hlookup := ((hfits.of_at? hgroup).1.lookup_iff name).2 rfl
    have hlookup' := ((hfits.of_at? hgroup').1.lookup_iff name).2 rfl
    have hnumber : number = number' := Option.some.inj (hlookup.symm.trans hlookup')
    rcases lt_trichotomy path path' with hlt | heq | hlt
    · exact absurd (Regex.number_lt_of_path_lt hincreasing hgroup hgroup' hlt) hnumber.not_lt
    · exact heq
    · exact absurd (Regex.number_lt_of_path_lt hincreasing hgroup' hgroup hlt) hnumber.symm.not_lt
  · intro path id extent hbackref houtside
    refine (Regex.exists_earlier_of_backref hnormal hwell hsafe hbackref houtside).resolve_left ?_
    intro hfound
    cases hfound

/-- A pattern with a named and a numbered backreference is well scoped. -/
theorem isScoped_echoes : compile echoes.source .none = .ok echoes ∧ echoes.root.IsScoped :=
  ⟨compile_echoes, isScoped_of_compile compile_echoes⟩

end Pattern

end Exemplar
