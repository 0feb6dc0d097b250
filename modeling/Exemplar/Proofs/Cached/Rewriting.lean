import Exemplar.Proofs.Cached.Basic
import Exemplar.Proofs.Cached.Construction

/-!
# Rewriting trees that keep their extents

Building or rewriting a tree that keeps the extents of its nodes does to the tree what it does to
the tree without them, and keeps what the outcome has. This needs the extents that the functions
find to be right, which is why every lemma is about `Regex.cache`. Where a function builds a node
anew that the other one only fills, the tree must have been constructed (`cache_mapSets`,
`cache_sized`).
-/

namespace Exemplar

namespace Regex

variable {tree body : Regex} {parts options : List Regex}

/-! ## Building -/

/-- A text is built with its extent. -/
theorem cache_ofText (text : List Char) (ignoreCase : Bool) :
    (ofText text ignoreCase).cache = .ofText text ignoreCase := by
  cases text <;> rfl

/-- Parts in a row are built with their extent. -/
theorem cache_inSequence (parts : List Regex) :
    (inSequence parts).cache = .inSequence (parts.map cache) := by
  cases parts with
  | nil => rfl
  | cons part parts =>
    show (sequence (part :: parts)).cache = _
    rw [cache, cacheAll_eq_map, extent, ← map_extent_cache]
    rfl

/-- One of several options is built with its extent. -/
theorem cache_anyOf (options : List Regex) :
    (anyOf options).cache = .anyOf (options.map cache) := by
  cases options with
  | nil => rfl
  | cons option options =>
    show (choice (option :: options)).cache = _
    rw [cache, cacheAll_eq_map, extent, ← map_extent_cache]
    rfl

/-- Copies of a body are built with their extent. -/
theorem cache_repeated (body : Regex) (least : Nat) (most : Bound) (mode : RepetitionMode) :
    (body.repeated least most mode).cache = body.cache.repeated least most mode := by
  rw [repeated, cache, CachedRegex.repeated, extent_cache, extent]

/-- A body in parentheses is built with its extent. -/
theorem cache_group (kind : GroupKind) (body : Regex) :
    (group kind body).cache = .inGroup kind body.cache := by
  rw [cache, CachedRegex.inGroup, extent_cache, extent]

/-- A sequence with parts has the extent with which it is built. -/
theorem cache_sequence (h : parts ≠ []) :
    (sequence parts).cache = .inSequence (parts.map cache) := by
  rw [← cache_inSequence, inSequence, if_neg (by simpa using h)]

/-- A choice with options has the extent with which it is built. -/
theorem cache_choice (h : options ≠ []) :
    (choice options).cache = .anyOf (options.map cache) := by
  rw [← cache_anyOf, anyOf, if_neg (by simpa using h)]

/-- A repetition whose counts are in order has the extent with which it is built. -/
theorem cache_repetition {least : Nat} {most : Bound} (h : most.Allows least)
    (mode : RepetitionMode) :
    (repetition body least most mode).cache = body.cache.repeated least most mode := by
  rw [← cache_repeated, repeated, Bound.raise_of_allows h]

/-! ## Simplifying -/

/-- Putting a tree in front of parts that keep their extents. -/
theorem prepend_cache (tree : Regex) (rest : List Regex) :
    tree.cache.prepend (rest.map cache) = (prepend tree rest).map cache := by
  induction tree generalizing rest with
  | empty => rfl
  | sequence parts ih =>
    rw [cache, cacheAll_eq_map, CachedRegex.prepend, prepend]
    induction parts with
    | nil => rfl
    | cons part parts ihparts =>
      rw [List.map_cons, CachedRegex.prependAll, prependAll,
        ihparts fun other hother ↦ ih other (List.mem_cons_of_mem _ hother), ih part (by simp)]
  | literal text ignoreCase =>
    cases rest with
    | nil => rfl
    | cons head rest =>
      cases head with
      | literal next ignoreCase' =>
        rw [List.map_cons, cache, cache, CachedRegex.prepend, prepend]
        split <;> rfl
      | empty => rfl
      | set members => rfl
      | sequence parts => rfl
      | choice options => rfl
      | repetition body least most mode => rfl
      | group kind body => rfl
      | backref id extent => rfl
  | set members => rfl
  | choice options ih => rfl
  | repetition body least most mode ih => rfl
  | group kind body ih => rfl
  | backref id extent => rfl

/-- Putting several trees in front of parts that keep their extents. -/
theorem prependAll_map_cache (trees rest : List Regex) :
    CachedRegex.prependAll (trees.map cache) (rest.map cache) =
      (prependAll trees rest).map cache := by
  induction trees with
  | nil => rfl
  | cons tree trees ih => rw [List.map_cons, CachedRegex.prependAll, ih, prepend_cache, prependAll]

/-- The options that a tree contributes keep their extents. -/
theorem asOptions_cache (tree : Regex) : tree.cache.asOptions = (asOptions tree).map cache := by
  cases tree with
  | choice options => rw [cache, cacheAll_eq_map, CachedRegex.asOptions, asOptions]
  | empty => rfl
  | literal text ignoreCase => rfl
  | set members => rfl
  | sequence parts => rfl
  | repetition body least most mode => rfl
  | group kind body => rfl
  | backref id extent => rfl

/-- The options that several trees contribute keep their extents. -/
theorem flatMap_asOptions_cache (trees : List Regex) :
    (trees.map cache).flatMap CachedRegex.asOptions = (trees.flatMap asOptions).map cache := by
  rw [List.flatMap_map, List.map_flatMap]
  exact congrArg (trees.flatMap ·) (funext asOptions_cache)

/-- Joined parts are built with their extent. -/
theorem joinParts_map_cache (parts : List Regex) :
    CachedRegex.joinParts (parts.map cache) = (joinParts parts).cache := by
  match parts with
  | [] => rfl
  | [part] => rfl
  | part :: next :: parts =>
    exact (cache_inSequence (part :: next :: parts)).symm

/-- Joined options are built with their extent. -/
theorem joinOptions_map_cache (options : List Regex) :
    CachedRegex.joinOptions (options.map cache) = (joinOptions options).cache := by
  match options with
  | [] => rfl
  | [option] => rfl
  | option :: next :: options =>
    exact (cache_anyOf (option :: next :: options)).symm

/-- A tree is that of the empty string, whether it keeps its extents or not. -/
theorem isEmpty_cache (tree : Regex) : tree.cache.isEmpty = true ↔ tree = empty := by
  cases tree <;> simp [cache, CachedRegex.isEmpty]

/-- Joined copies are built with their extent. -/
theorem joinCopies_cache (body : Regex) (least : Nat) (most : Bound) (mode : RepetitionMode) :
    body.cache.joinCopies least most mode = (joinCopies body least most mode).cache := by
  simp only [CachedRegex.joinCopies, joinCopies, isEmpty_cache]
  split
  · rfl
  · split
    · rfl
    · exact (cache_repeated body least most mode).symm

/-- Simplifying a tree that keeps its extents simplifies the tree and keeps the extents of its
normal form. -/
theorem simplify_cache (tree : Regex) : tree.cache.simplify = tree.simplify.cache := by
  have hlist {trees : List Regex} (h : ∀ tree ∈ trees,
      tree.cache.simplify = tree.simplify.cache) :
      (trees.map cache).map CachedRegex.simplify = (trees.map simplify).map cache := by
    rw [List.map_map, List.map_map]
    exact List.map_congr_left h
  induction tree with
  | empty => rfl
  | literal text ignoreCase => rfl
  | set members => rfl
  | sequence parts ih =>
    rw [cache, cacheAll_eq_map, CachedRegex.simplify, CachedRegex.simplifyAll_eq_map,
      hlist ih, simplify, simplifyAll_eq_map, ← joinParts_map_cache, ← prependAll_map_cache,
      List.map_nil]
  | choice options ih =>
    rw [cache, cacheAll_eq_map, CachedRegex.simplify, CachedRegex.simplifyAll_eq_map,
      hlist ih, simplify, simplifyAll_eq_map, ← joinOptions_map_cache,
      ← flatMap_asOptions_cache]
  | repetition body least most mode ih =>
    rw [cache, CachedRegex.simplify, ih, simplify, joinCopies_cache]
  | group kind body ih =>
    cases kind with
    | plain => exact ih
    | capturing number name => exact (congrArg _ ih).trans (cache_group _ _).symm
    | atomic => exact (congrArg _ ih).trans (cache_group _ _).symm
    | lookahead negated => exact (congrArg _ ih).trans (cache_group _ _).symm
    | lookbehind negated => exact (congrArg _ ih).trans (cache_group _ _).symm
  | backref id extent => rfl

/-! ## Pruning -/

/-- Pruning a tree that keeps its extents prunes the tree and keeps the extents of what is left. -/
theorem prune_cache (tree : Regex) : tree.cache.prune = tree.prune.map cache := by
  induction tree with
  | empty => rfl
  | literal text ignoreCase => rfl
  | set members =>
    rw [cache, CachedRegex.prune, prune]
    split <;> rfl
  | sequence parts ih =>
    have heach : CachedRegex.pruneEach (parts.map cache) =
        (pruneEach parts).map (List.map cache) := by
      induction parts with
      | nil => rfl
      | cons part parts ihparts =>
        rw [List.map_cons, CachedRegex.pruneEach, ih part (by simp),
          ihparts fun other hother ↦ ih other (List.mem_cons_of_mem _ hother), pruneEach]
        cases prune part <;> cases pruneEach parts <;> rfl
    rw [cache, cacheAll_eq_map, CachedRegex.prune, heach, prune, Option.map_map, Option.map_map]
    exact congrArg (Option.map · _) (funext fun rest ↦ (cache_inSequence rest).symm)
  | choice options ih =>
    have hany : CachedRegex.pruneAny (options.map cache) = (pruneAny options).map cache := by
      rw [CachedRegex.pruneAny_eq_filterMap, pruneAny_eq_filterMap, List.filterMap_map,
        List.map_filterMap]
      exact List.filterMap_congr ih
    rw [cache, cacheAll_eq_map, CachedRegex.prune, hany, prune]
    cases pruneAny options with
    | nil => rfl
    | cons option rest => exact congrArg some (cache_anyOf (option :: rest)).symm
  | repetition body least most mode ih =>
    rw [cache, CachedRegex.prune, ih, prune]
    cases prune body with
    | some rest => exact congrArg some (cache_repeated rest least most mode).symm
    | none => by_cases hleast : least = 0 <;> simp [hleast, CachedRegex.nothing, cache]
  | group kind body ih =>
    rw [cache, CachedRegex.prune, ih, prune]
    split
    · rfl
    · rw [Option.map_map, Option.map_map]
      exact congrArg (Option.map · _) (funext fun rest ↦ (cache_group kind rest).symm)
  | backref id extent => rfl

/-! ## Replacing sets -/

/-- Replacing the sets of a constructed tree that keeps its extents keeps those of the outcome. -/
theorem Constructed.cache_mapSets (h : tree.Constructed) (replace : CharSet → CharSet) :
    tree.cache.mapSets replace = (tree.mapSets replace).cache := by
  have hlist {trees : List Regex}
      (h : ∀ tree ∈ trees, tree.cache.mapSets replace = (tree.mapSets replace).cache) :
      (trees.map cache).map (CachedRegex.mapSets replace) =
        (trees.map (Regex.mapSets replace)).map cache := by
    rw [List.map_map, List.map_map]
    exact List.map_congr_left h
  induction tree with
  | empty => rfl
  | literal text ignoreCase => rfl
  | set members => rfl
  | sequence parts ih =>
    obtain ⟨hsome, hparts⟩ := constructed_sequence.1 h
    rw [cache, cacheAll_eq_map, CachedRegex.mapSets, CachedRegex.mapSetsAll_eq_map,
      hlist fun part hpart ↦ ih part hpart (hparts part hpart), Regex.mapSets, mapSetsAll_eq_map,
      cache_sequence (by simpa using hsome)]
  | choice options ih =>
    obtain ⟨hsome, hoptions⟩ := constructed_choice.1 h
    rw [cache, cacheAll_eq_map, CachedRegex.mapSets, CachedRegex.mapSetsAll_eq_map,
      hlist fun option hoption ↦ ih option hoption (hoptions option hoption), Regex.mapSets,
      mapSetsAll_eq_map, cache_choice (by simpa using hsome)]
  | repetition body least most mode ih =>
    obtain ⟨⟨hmost, -⟩, hbody⟩ := constructed_repetition.1 h
    rw [cache, CachedRegex.mapSets, ih hbody, Regex.mapSets, cache_repetition hmost]
  | group kind body ih =>
    rw [cache, CachedRegex.mapSets, ih (constructed_group.1 h), Regex.mapSets, cache_group]
  | backref id extent => rfl

/-! ## Sizing -/

/-- A round of sizing may keep the extents of the tree before or after it. -/
def CachesAlike (caps : GroupId → Option Nat) (tree : Regex) : Prop :=
  ∀ target, tree.cache.resize caps target = cache <$> tree.resize caps target

section Round

variable {caps : GroupId → Option Nat}

/-- The extents of parts in a row may be kept before or after a round of sizing. -/
theorem resizeParts_map_cache (h : ∀ part ∈ parts, part.CachesAlike caps) (targets : List Nat) :
    CachedRegex.resizeParts caps (parts.map cache) targets =
      List.map cache <$> resizeParts caps parts targets := by
  induction parts generalizing targets with
  | nil => simp [CachedRegex.resizeParts, resizeParts]
  | cons part parts ih =>
    obtain ⟨hpart, hparts⟩ := List.forall_mem_cons.1 h
    cases targets with
    | nil => simp [CachedRegex.resizeParts, resizeParts]
    | cons target targets =>
      rw [List.map_cons, CachedRegex.resizeParts, hpart, ih hparts, resizeParts]
      simp

/-- The extents of options may be kept before or after a round of sizing. -/
theorem resizeOptions_map_cache (h : ∀ option ∈ options, option.CachesAlike caps)
    (reach target : Nat) :
    CachedRegex.resizeOptions caps reach (options.map cache) target =
      List.map cache <$> resizeOptions caps reach options target := by
  induction options with
  | nil => simp [CachedRegex.resizeOptions, resizeOptions]
  | cons option options ih =>
    obtain ⟨hoption, hoptions⟩ := List.forall_mem_cons.1 h
    rw [List.map_cons, CachedRegex.resizeOptions, extent_cache, hoption, ih hoptions, resizeOptions,
      minLength]
    split
    · simp
    · rfl

/-- The extents of a constructed tree may be kept before or after a round of sizing. -/
theorem Constructed.cachesAlike (h : tree.Constructed) (caps : GroupId → Option Nat) :
    tree.CachesAlike caps := by
  induction tree with
  | empty => exact fun target ↦ rfl
  | literal text ignoreCase => exact fun target ↦ rfl
  | set members => exact fun target ↦ rfl
  | sequence parts ih =>
    obtain ⟨hsome, hparts⟩ := constructed_sequence.1 h
    refine fun target ↦ StateT.ext fun plan ↦ ?_
    rw [cache, cacheAll_eq_map, CachedRegex.resize, map_extent_cache,
      resizeParts_map_cache fun part hpart ↦ ih part hpart (hparts part hpart), resize]
    exact congrArg (·, _) (cache_sequence (resizeParts_ne_nil hsome caps target plan)).symm
  | choice options ih =>
    obtain ⟨hsome, hoptions⟩ := constructed_choice.1 h
    refine fun target ↦ StateT.ext fun plan ↦ ?_
    rw [cache, cacheAll_eq_map, CachedRegex.resize,
      resizeOptions_map_cache fun option hoption ↦
        ih option hoption (hoptions option hoption), resize]
    exact congrArg (·, _) (cache_choice (resizeOptions_ne_nil hsome caps target plan)).symm
  | repetition body least most mode ih =>
    obtain ⟨-, hbody⟩ := constructed_repetition.1 h
    intro target
    have hfit : (if (repetition body least most mode).extent.max.IsWithin target then
        (most, body.extent.max.finite?.getD body.extent.min)
        else Extent.fitRepetition body.extent least most target) =
        Extent.fitRepetition body.extent least most target := by
      by_cases hwithin : (body.extent.max * most).IsWithin target
      · exact (if_pos hwithin).trans (if_pos hwithin).symm
      · exact if_neg hwithin
    rw [cache, CachedRegex.resize, extent_cache, hfit, resize]
    rcases Extent.fitRepetition body.extent least most target with ⟨count, each⟩
    dsimp only
    rw [ih hbody each]
    simp [cache_repeated]
  | group kind body ih =>
    have hbody := ih (constructed_group.1 h)
    intro target
    cases kind with
    | capturing number name =>
      rw [cache, CachedRegex.resize, hbody, resize]
      simp [cache_group]
    | plain =>
      rw [cache, CachedRegex.resize, hbody, resize]
      simp [cache_group]
    | atomic =>
      rw [cache, CachedRegex.resize, hbody, resize]
      simp [cache_group]
    | lookahead negated => rfl
    | lookbehind negated => rfl
  | backref id extent => exact fun target ↦ rfl

end Round

/-- Sizing a constructed tree that keeps its extents keeps those of the outcome. -/
theorem Constructed.cache_sized (h : tree.Constructed) (target : Nat) :
    tree.cache.sized target = (tree.sized target).cache := by
  have hround (caps : GroupId → Option Nat) :
      (tree.cache.resize caps target).run {} =
        (((tree.resize caps target).run {}).1.cache, ((tree.resize caps target).run {}).2) := by
    rw [h.cachesAlike caps target]
    rfl
  rw [CachedRegex.sized, hround, hround]
  rfl

end Regex

end Exemplar
