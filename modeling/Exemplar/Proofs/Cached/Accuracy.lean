import Exemplar.Proofs.Cached.Rewriting

/-!
# The extents that trees keep are right

Every tree that can be had keeps what belongs to it. It is a constructed tree with its extents kept
(`Obtainable.exists_eq_cache`), so in every node there is the extent that the function that builds
the node would compute from the extents of its children, and some length lies in it
(`Obtainable.keepsExtents`).
-/

namespace Exemplar

namespace Regex

variable {tree : Regex} {property : Regex → Prop}

/-- What is inside a tree that keeps its extents is a tree inside the tree, with its extents
kept. -/
theorem exists_of_mem_nodes_cache (h : tree.Everywhere property) {node : CachedRegex}
    (hnode : node ∈ tree.cache.nodes) :
    ∃ inner : Regex, inner.Everywhere property ∧ node = inner.cache := by
  induction tree with
  | empty => exact ⟨empty, h, List.mem_singleton.1 hnode⟩
  | literal text ignoreCase => exact ⟨literal text ignoreCase, h, List.mem_singleton.1 hnode⟩
  | set members => exact ⟨set members, h, List.mem_singleton.1 hnode⟩
  | sequence parts ih =>
    rw [cache, cacheAll_eq_map, CachedRegex.nodes, CachedRegex.nodesOfAll_eq_flatMap,
      ← cacheAll_eq_map, ← cache] at hnode
    rcases List.mem_cons.1 hnode with rfl | hnode
    · exact ⟨sequence parts, h, rfl⟩
    · rw [cacheAll_eq_map, List.flatMap_map] at hnode
      obtain ⟨part, hpart, hnode⟩ := List.mem_flatMap.1 hnode
      exact ih part hpart ((everywhere_sequence.1 h).2 part hpart) hnode
  | choice options ih =>
    rw [cache, cacheAll_eq_map, CachedRegex.nodes, CachedRegex.nodesOfAll_eq_flatMap,
      ← cacheAll_eq_map, ← cache] at hnode
    rcases List.mem_cons.1 hnode with rfl | hnode
    · exact ⟨choice options, h, rfl⟩
    · rw [cacheAll_eq_map, List.flatMap_map] at hnode
      obtain ⟨option, hoption, hnode⟩ := List.mem_flatMap.1 hnode
      exact ih option hoption ((everywhere_choice.1 h).2 option hoption) hnode
  | repetition body least most mode ih =>
    rw [cache, CachedRegex.nodes, ← cache] at hnode
    rcases List.mem_cons.1 hnode with rfl | hnode
    · exact ⟨repetition body least most mode, h, rfl⟩
    · exact ih (everywhere_repetition.1 h).2 hnode
  | group kind body ih =>
    rw [cache, CachedRegex.nodes, ← cache] at hnode
    rcases List.mem_cons.1 hnode with rfl | hnode
    · exact ⟨group kind body, h, rfl⟩
    · exact ih (everywhere_group.1 h).2 hnode
  | backref id extent => exact ⟨backref id extent, h, List.mem_singleton.1 hnode⟩

/-- A constructed tree with its extents kept has the right ones. -/
theorem Constructed.isAccurate_cache (h : tree.Constructed) : tree.cache.IsAccurate := by
  intro node hnode
  obtain ⟨inner, hvalid, rfl⟩ := exists_of_mem_nodes_cache h.valid hnode
  refine ⟨by rw [extent_cache, computed_cache], ?_⟩
  rw [extent_cache]
  exact hvalid.here

end Regex

namespace CachedRegex

/-- Several trees that are constructed trees with their extents kept are a list of such trees. -/
theorem exists_eq_map_cache {trees : List CachedRegex}
    (h : ∀ tree ∈ trees, ∃ inner : Regex, inner.Constructed ∧ tree = inner.cache) :
    ∃ inners : List Regex, (∀ inner ∈ inners, inner.Constructed) ∧
      trees = inners.map Regex.cache := by
  induction trees with
  | nil => exact ⟨[], by simp, rfl⟩
  | cons tree trees ih =>
    obtain ⟨⟨inner, hinner, rfl⟩, htrees⟩ := List.forall_mem_cons.1 h
    obtain ⟨inners, hinners, rfl⟩ := ih htrees
    exact ⟨inner :: inners, List.forall_mem_cons.2 ⟨hinner, hinners⟩, rfl⟩

namespace Obtainable

variable {tree : CachedRegex}

/-- A tree that can be had is a constructed tree with its extents kept. -/
theorem exists_eq_cache (h : Obtainable tree) :
    ∃ inner : Regex, inner.Constructed ∧ tree = inner.cache := by
  induction h with
  | ofText text ignoreCase =>
    refine ⟨.ofText text ignoreCase, ?_, (Regex.cache_ofText text ignoreCase).symm⟩
    cases text <;> trivial
  | ofSet members => exact ⟨.set members, trivial, rfl⟩
  | inSequence _ ih =>
    obtain ⟨parts, hparts, rfl⟩ := exists_eq_map_cache ih
    exact ⟨_, Regex.constructed_inSequence hparts, (Regex.cache_inSequence parts).symm⟩
  | anyOf _ ih =>
    obtain ⟨options, hoptions, rfl⟩ := exists_eq_map_cache ih
    exact ⟨_, Regex.constructed_anyOf hoptions, (Regex.cache_anyOf options).symm⟩
  | @repeated _ _ least hleast most mode ih =>
    obtain ⟨body, hbody, rfl⟩ := ih
    exact ⟨_, Regex.constructed_repeated hbody hleast most mode,
      (Regex.cache_repeated body least most mode).symm⟩
  | inGroup kind _ ih =>
    obtain ⟨body, hbody, rfl⟩ := ih
    exact ⟨_, Regex.constructed_group.2 hbody, (Regex.cache_group kind body).symm⟩
  | @backref id extent hvalid => exact ⟨.backref id extent, hvalid, rfl⟩
  | simplify _ ih =>
    obtain ⟨inner, hinner, rfl⟩ := ih
    exact ⟨_, hinner.simplify, inner.simplify_cache⟩
  | prune _ hprune ih =>
    obtain ⟨inner, hinner, rfl⟩ := ih
    rw [Regex.prune_cache] at hprune
    obtain ⟨rest, hrest, rfl⟩ := Option.map_eq_some_iff.1 hprune
    exact ⟨rest, hinner.prune hrest, rfl⟩
  | mapSets replace _ ih =>
    obtain ⟨inner, hinner, rfl⟩ := ih
    exact ⟨_, hinner.mapSets replace, hinner.cache_mapSets replace⟩
  | sized target _ ih =>
    obtain ⟨inner, hinner, rfl⟩ := ih
    exact ⟨_, hinner.sized target, hinner.cache_sized target⟩

/-- A tree that can be had keeps in every node the extent that the function that builds the node
computes from the extents of its children, and some length lies in it. Simplifying, pruning,
replacing sets and sizing do to it what they do to the tree whose extents are computed whenever
they are asked for. -/
theorem keepsExtents (h : Obtainable tree) :
    (∀ node ∈ tree.nodes,
      node.extent = node.computed ∧ node.extent = node.plain.extent ∧ node.extent.Valid) ∧
    tree.simplify.plain = tree.plain.simplify ∧ tree.prune.map plain = tree.plain.prune ∧
    (∀ replace, (tree.mapSets replace).plain = tree.plain.mapSets replace) ∧
    ∀ target, (tree.sized target).plain = tree.plain.sized target := by
  obtain ⟨inner, hinner, rfl⟩ := h.exists_eq_cache
  refine ⟨fun node hnode ↦ ?_, ?_, ?_, fun replace ↦ ?_, fun target ↦ ?_⟩
  · obtain ⟨below, -, rfl⟩ := Regex.exists_of_mem_nodes_cache hinner hnode
    obtain ⟨hcomputed, hvalid⟩ := hinner.isAccurate_cache _ hnode
    exact ⟨hcomputed, by rw [Regex.extent_cache, Regex.plain_cache], hvalid⟩
  · rw [Regex.simplify_cache, Regex.plain_cache, Regex.plain_cache]
  · rw [Regex.prune_cache, Regex.plain_cache, Option.map_map]
    exact (congrArg (Option.map · _) (funext Regex.plain_cache)).trans (Option.map_id_fun' ▸ rfl)
  · rw [hinner.cache_mapSets, Regex.plain_cache, Regex.plain_cache]
  · rw [hinner.cache_sized, Regex.plain_cache, Regex.plain_cache]

end Obtainable

/-- Two texts in a row, a group whose least length is cut off and whose bound is lost, and a choice
with an impossible option, where neither the cut nor the joined texts leave a wrong extent
behind. -/
theorem keepsExtents_ofOverflow :
    let copies :=
      (repeated (ofSet .any) (2 ^ 40) (.ofExact (2 ^ 41)) .greedy).repeated (2 ^ 40) 0 .greedy
    let tree := inSequence [ofText ['a', 'b'] false, ofText ['c'] false,
      inGroup (.capturing 1 none) copies, anyOf [ofSet .empty, ofText ['d'] false]]
    copies.extent = .between Size.largest .unbounded ∧
      ∃ left, tree.simplify.prune = some left ∧
        (left.sized 10).nodes.map extent =
          [copies.extent, .ofLength 3, copies.extent, copies.extent,
            .between (2 ^ 40) (.ofExact (2 ^ 41)), .ofLength 1, .ofLength 1, .ofLength 1] ∧
        ∀ node ∈ (left.sized 10).nodes,
          node.extent = node.computed ∧ node.extent = node.plain.extent ∧
          node.extent.Valid := by
  intro copies tree
  have htree : Obtainable tree := by
    refine .inSequence ?_
    simp only [List.forall_mem_cons, List.not_mem_nil, false_implies, implies_true, and_true]
    refine ⟨.ofText _ _, .ofText _ _, .inGroup _ (.repeated (.repeated (.ofSet _) (by decide) _ _)
      (by decide) _ _), .anyOf ?_⟩
    simp only [List.forall_mem_cons, List.not_mem_nil, false_implies, implies_true, and_true]
    exact ⟨.ofSet _, .ofText _ _⟩
  refine ⟨by decide, tree.simplify.prune.get (by decide),
    (Option.some_get _).symm, by decide, ?_⟩
  exact (Obtainable.keepsExtents ((htree.simplify.prune (Option.some_get _).symm).sized 10)).1

end CachedRegex

end Exemplar
