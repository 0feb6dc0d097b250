import Exemplar.Grammar.References
import Exemplar.Proofs.Regex.Paths

/-!
# Sites of sets and references

A pattern that was read may still be refused for one of its references or one of its sets. The
sites of a tree are its sets and references in the order of the text, those in assertions included.
A path to a node splits them into those before the node, those of the node and those behind it
(`exists_sites_eq`), and each site is that of some path (`exists_path_of_sites_eq`). Along the
paths there are ever more sites before a node (`sitesBefore_append_isPrefix`).
-/

namespace Exemplar

/-- A set or a reference in a pattern. -/
inductive Site where
  | set (members : CharSet)
  | reference (id : GroupId)

namespace Site

/-- Whether the site is a reference. -/
def isReference : Site → Bool
  | set _ => false
  | reference _ => true

/-- Whether the site is a set without members. -/
def isEmptySet : Site → Bool
  | set members => members.isEmpty
  | reference _ => false

end Site

namespace Regex

mutual
/-- The sets and references in a tree, in the order of the text. -/
def sites : Regex → List Site
  | set members => [.set members]
  | backref id _ => [.reference id]
  | sequence parts => sitesOfAll parts
  | choice options => sitesOfAll options
  | repetition body .. => sites body
  | group _ body => sites body
  | _ => []

/-- The sets and references in several trees. -/
def sitesOfAll : List Regex → List Site
  | [] => []
  | tree :: trees => sites tree ++ sitesOfAll trees
end

/-- The sites before the node at a path. -/
def sitesBefore : Regex → List Nat → List Site
  | _, [] => []
  | tree, index :: path =>
      sitesOfAll (tree.children.take index) ++
        match tree.children[index]? with
        | some child => child.sitesBefore path
        | none => []

variable {tree node : Regex} {trees : List Regex} {path path' : List Nat} {before after : List Site}
  {site : Site}

/-- The sites of several trees are those of each tree. -/
theorem sitesOfAll_eq_flatMap (trees : List Regex) : sitesOfAll trees = trees.flatMap sites := by
  induction trees with
  | nil => rfl
  | cons tree trees ih => rw [sitesOfAll, ih, List.flatMap_cons]

/-- The sites of some trees stand before those of others. -/
theorem sitesOfAll_append (trees others : List Regex) :
    sitesOfAll (trees ++ others) = sitesOfAll trees ++ sitesOfAll others := by
  simp only [sitesOfAll_eq_flatMap, List.flatMap_append]

/-- A sequence has the sites of its parts. -/
theorem sites_sequence (parts : List Regex) : (sequence parts).sites = parts.flatMap sites := by
  rw [sites, sitesOfAll_eq_flatMap]

/-- A choice has the sites of its options. -/
theorem sites_choice (options : List Regex) : (choice options).sites = options.flatMap sites := by
  rw [sites, sitesOfAll_eq_flatMap]

/-- Parts in a row have the sites of the parts. -/
theorem sites_inSequence (parts : List Regex) : (inSequence parts).sites = parts.flatMap sites := by
  cases parts with
  | nil => rfl
  | cons part parts => exact sites_sequence _

/-- One of several options has the sites of the options. -/
theorem sites_anyOf (options : List Regex) : (anyOf options).sites = options.flatMap sites := by
  cases options with
  | nil => rfl
  | cons option options => exact sites_choice _

/-- A text has no sites. -/
theorem sites_ofText (text : List Char) (ignoreCase : Bool) :
    (ofText text ignoreCase).sites = [] := by
  cases text <;> rfl

/-- A tree with children has the sites of its children. -/
theorem sites_of_children (h : tree.children ≠ []) : tree.sites = sitesOfAll tree.children := by
  cases tree with
  | sequence parts => rfl
  | choice options => rfl
  | repetition body least most mode => exact (List.append_nil _).symm
  | group kind body => exact (List.append_nil _).symm
  | _ => exact absurd rfl h

/-- A tree without children has at most one site. -/
theorem sites_of_leaf (h : tree.children = []) :
    tree.sites = [] ∨ ∃ site, tree.sites = [site] := by
  cases tree with
  | sequence parts =>
    cases h
    exact .inl rfl
  | choice options =>
    cases h
    exact .inl rfl
  | repetition body least most mode => cases h
  | group kind body => cases h
  | empty => exact .inl rfl
  | literal text ignoreCase => exact .inl rfl
  | set members => exact .inr ⟨_, rfl⟩
  | backref id extent => exact .inr ⟨_, rfl⟩

/-- A tree without children whose only site is a set is that set. -/
theorem eq_set_of_sites {members : CharSet} (h : tree.children = [])
    (hsites : tree.sites = [.set members]) :
    tree = set members := by
  cases tree with
  | sequence parts =>
    cases h
    cases hsites
  | choice options =>
    cases h
    cases hsites
  | repetition body least most mode => cases h
  | group kind body => cases h
  | empty => cases hsites
  | literal text ignoreCase => cases hsites
  | set others =>
    cases hsites
    rfl
  | backref id extent => cases hsites

/-- There are as many references among the sites as the check of references passes. -/
theorem countP_isReference_sites (tree : Regex) :
    tree.sites.countP Site.isReference = tree.referenceCount := by
  have hlist (trees : List Regex)
      (ih : ∀ tree ∈ trees, tree.sites.countP Site.isReference = tree.referenceCount) :
      (trees.flatMap sites).countP Site.isReference = referenceCounts trees := by
    induction trees with
    | nil => rfl
    | cons tree trees ihtrees =>
      rw [List.flatMap_cons, List.countP_append, ih tree (by simp), referenceCounts,
        ihtrees fun other hother ↦ ih other (List.mem_cons_of_mem _ hother)]
  induction tree with
  | empty => rfl
  | literal text ignoreCase => rfl
  | set members => rfl
  | sequence parts ih => rw [sites_sequence, hlist parts ih, referenceCount]
  | choice options ih => rw [sites_choice, hlist options ih, referenceCount]
  | repetition body least most mode ih => exact ih
  | group kind body ih => exact ih
  | backref id extent => rfl

/-! ## Sites on paths -/

/-- The sites before a node below a child are those of the children before it and those before the
node in the child. -/
theorem sitesBefore_cons {index : Nat} {child : Regex} (hchild : tree.children[index]? = some child)
    (path : List Nat) :
    tree.sitesBefore (index :: path) =
      sitesOfAll (tree.children.take index) ++ child.sitesBefore path := by
  rw [sitesBefore, hchild]

/-- The sites of several trees are those before one of them, its own, and those behind it. -/
theorem sitesOfAll_split {index : Nat} (h : trees[index]? = some tree) :
    sitesOfAll trees =
      sitesOfAll (trees.take index) ++ (tree.sites ++ sitesOfAll (trees.drop (index + 1))) := by
  obtain ⟨hindex, rfl⟩ := List.getElem?_eq_some_iff.1 h
  conv_lhs =>
    rw [← List.take_append_drop index trees, List.drop_eq_getElem_cons hindex, sitesOfAll_append]
  rfl

/-- The sites of a tree are those before a node, its own, and those behind it. -/
theorem exists_sites_eq (h : tree.at? path = some node) :
    ∃ after, tree.sites = tree.sitesBefore path ++ (node.sites ++ after) := by
  induction path generalizing tree with
  | nil =>
    cases h
    exact ⟨[], (List.append_nil _).symm⟩
  | cons index path ih =>
    obtain ⟨child, hchild, hnode⟩ := at?_cons_eq_some.1 h
    obtain ⟨after, hafter⟩ := ih hnode
    have hsome : tree.children ≠ [] := List.ne_nil_of_mem (List.mem_of_getElem? hchild)
    refine ⟨after ++ sitesOfAll (tree.children.drop (index + 1)), ?_⟩
    rw [sites_of_children hsome, sitesOfAll_split hchild, sitesBefore_cons hchild, hafter]
    simp only [List.append_assoc]

/-- A site of several trees is a site of one of them. -/
theorem exists_index_of_sitesOfAll_eq (h : sitesOfAll trees = before ++ site :: after) :
    ∃ index tree first last, trees[index]? = some tree ∧ tree.sites = first ++ site :: last ∧
      before = sitesOfAll (trees.take index) ++ first := by
  induction trees generalizing before with
  | nil => exact absurd h.symm (by simp [sitesOfAll])
  | cons tree trees ih =>
    rw [sitesOfAll] at h
    rcases List.append_eq_append_iff.1 h with ⟨middle, rfl, hrest⟩ | ⟨middle, htree, hrest⟩
    · obtain ⟨index, other, first, last, hother, hsites, rfl⟩ := ih hrest
      exact ⟨index + 1, other, first, last, hother, hsites, (List.append_assoc ..).symm⟩
    · cases middle with
      | nil =>
        -- The site is the first one behind the tree.
        have hfirst : sitesOfAll trees = [] ++ site :: after := hrest.symm
        obtain ⟨index, other, first, last, hother, hsites, hbefore⟩ := ih hfirst
        refine ⟨index + 1, other, first, last, hother, hsites, ?_⟩
        rw [List.append_nil] at htree
        rw [List.take_succ_cons, sitesOfAll, List.append_assoc, ← hbefore, htree, List.append_nil]
      | cons next middle =>
        obtain ⟨rfl, -⟩ := List.cons.inj hrest
        exact ⟨0, tree, before, middle, rfl, htree, rfl⟩

/-- Every site of a tree is that of a node without children. -/
theorem exists_path_of_sites_eq (h : tree.sites = before ++ site :: after) :
    ∃ path node, tree.at? path = some node ∧ node.children = [] ∧ node.sites = [site] ∧
      tree.sitesBefore path = before := by
  induction tree using children_induction generalizing before after with
  | h tree ih =>
    by_cases hleaf : tree.children = []
    · rcases sites_of_leaf hleaf with hnone | ⟨only, honly⟩
      · rw [hnone] at h
        cases before <;> cases h
      · rw [honly] at h
        cases before with
        | nil =>
          obtain ⟨rfl, -⟩ := List.cons.inj h
          exact ⟨[], tree, rfl, hleaf, honly, rfl⟩
        | cons first before => simp at h
    · rw [sites_of_children hleaf] at h
      obtain ⟨index, child, first, last, hchild, hsites, rfl⟩ := exists_index_of_sitesOfAll_eq h
      obtain ⟨path, node, hnode, hnone, hsite, rfl⟩ :=
        ih child (List.mem_of_getElem? hchild) hsites
      exact ⟨index :: path, node, at?_cons_eq_some.2 ⟨child, hchild, hnode⟩, hnone, hsite,
        sitesBefore_cons hchild path⟩

/-- Before a node there are the sites before an earlier node without children, and those of that
node. -/
theorem sitesBefore_append_isPrefix {node' : Regex} (hnode : tree.at? path = some node)
    (hleaf : node.children = []) (hnode' : tree.at? path' = some node') (hlt : path < path') :
    tree.sitesBefore path ++ node.sites <+: tree.sitesBefore path' := by
  induction path generalizing tree path' with
  | nil =>
    cases hnode
    cases path' with
    | nil => exact absurd hlt (List.lt_irrefl [])
    | cons index path' =>
      obtain ⟨child, hchild, -⟩ := at?_cons_eq_some.1 hnode'
      rw [hleaf] at hchild
      cases hchild
  | cons index path ih =>
    cases path' with
    | nil => exact absurd hlt (List.not_lt_nil _)
    | cons index' path' =>
      obtain ⟨child, hchild, hnode⟩ := at?_cons_eq_some.1 hnode
      obtain ⟨child', hchild', hnode'⟩ := at?_cons_eq_some.1 hnode'
      rw [sitesBefore_cons hchild, sitesBefore_cons hchild', List.append_assoc]
      rcases List.cons_lt_cons_iff.1 hlt with hindex | ⟨rfl, hrest⟩
      · -- The nodes are in different children, and the first child is one of those before the
        -- other.
        have hfirst : (tree.children.take index')[index]? = some child := by
          rw [List.getElem?_take_of_lt hindex, hchild]
        obtain ⟨after, hafter⟩ := exists_sites_eq hnode
        rw [sitesOfAll_split hfirst, List.take_take, Nat.min_eq_left (Nat.le_of_lt hindex), hafter]
        simp only [List.append_assoc]
        exact (List.prefix_append_right_inj _).2
          ((List.prefix_append_right_inj _).2 (List.prefix_append ..))
      · rw [hchild] at hchild'
        cases hchild'
        exact (List.prefix_append_right_inj _).2 (ih hnode hnode' hrest)

/-- There are different sites before different nodes that have sites and no children. -/
theorem path_eq_of_sitesBefore_eq {node' : Regex} (hnode : tree.at? path = some node)
    (hleaf : node.children = []) (hsites : node.sites ≠ []) (hnode' : tree.at? path' = some node')
    (hleaf' : node'.children = []) (hsites' : node'.sites ≠ [])
    (h : tree.sitesBefore path = tree.sitesBefore path') : path = path' := by
  have hlonger {sites others : List Site} (hothers : others ≠ []) :
      ¬ sites ++ others <+: sites := by
    intro hprefix
    have hlength := hprefix.length_le
    rw [List.length_append] at hlength
    exact hothers (List.length_eq_zero_iff.1 (by omega))
  rcases lt_trichotomy path path' with hlt | heq | hgt
  · exact absurd (h ▸ sitesBefore_append_isPrefix hnode hleaf hnode' hlt) (hlonger hsites)
  · exact heq
  · exact absurd (h ▸ sitesBefore_append_isPrefix hnode' hleaf' hnode hgt) (hlonger hsites')

end Regex

end Exemplar
