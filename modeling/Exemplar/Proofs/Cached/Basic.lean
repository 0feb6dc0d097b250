import Exemplar.Proofs.Regex.Everywhere
import Exemplar.Regex.Prune
import Exemplar.Regex.Simplify
import Exemplar.Regex.Sized

/-!
# Trees that keep their extents

The extent of a `Regex` is computed from the whole tree whenever it is asked for. A `CachedRegex`
is such a tree with an extent in every node, so its extent is read off without walking through the
tree. The functions that build trees compute the extent of the new node from the extents that its
children keep, and the functions that rewrite trees rely on the extents that they find. Where two
texts are joined, the text and the extent of a node are replaced without building the node again.

`Regex.cache` keeps in every node what the tree has there, and `CachedRegex.plain` forgets it. A
tree that is accurate has what the functions that build trees would compute (`IsAccurate`).
-/

namespace Exemplar

/-- The tree of a pattern, with an extent kept in every node. -/
inductive CachedRegex where
  | empty (extent : Extent)
  | literal (text : List Char) (ignoreCase : Bool) (extent : Extent)
  | set (members : CharSet) (extent : Extent)
  | sequence (parts : List CachedRegex) (extent : Extent)
  | choice (options : List CachedRegex) (extent : Extent)
  | repetition (body : CachedRegex) (least : Nat) (most : Bound) (mode : RepetitionMode)
      (extent : Extent)
  | group (kind : GroupKind) (body : CachedRegex) (extent : Extent)
  | backref (id : GroupId) (extent : Extent)
  deriving Inhabited

namespace CachedRegex

/-- The extent that the root keeps. -/
def extent : CachedRegex → Extent
  | empty extent | literal _ _ extent | set _ extent | sequence _ extent | choice _ extent
  | repetition _ _ _ _ extent | group _ _ extent | backref _ extent => extent

/-- The extent that belongs to the root according to the extents that its children keep. -/
def computed : CachedRegex → Extent
  | empty _ => .zero
  | literal text _ _ => .ofLength text.length
  | set _ _ => .ofLength 1
  | sequence parts _ => Extent.inSequence (parts.map extent)
  | choice options _ => Extent.anyOf (options.map extent)
  | repetition body least most _ _ => body.extent.repeated least most
  | group kind body _ => if kind.isLookaround then .zero else body.extent
  | backref _ extent => extent

mutual
/-- The tree and all trees inside it, those in assertions included. -/
def nodes : CachedRegex → List CachedRegex
  | sequence parts extent => sequence parts extent :: nodesOfAll parts
  | choice options extent => choice options extent :: nodesOfAll options
  | repetition body least most mode extent => repetition body least most mode extent :: nodes body
  | group kind body extent => group kind body extent :: nodes body
  | tree => [tree]

/-- Several trees and all trees inside them. -/
def nodesOfAll : List CachedRegex → List CachedRegex
  | [] => []
  | tree :: trees => nodes tree ++ nodesOfAll trees
end

/-- Every node keeps the extent that belongs to it, and some length lies in the extent. -/
def IsAccurate (tree : CachedRegex) : Prop :=
  ∀ node ∈ tree.nodes, node.extent = node.computed ∧ node.extent.Valid

mutual
/-- The tree without the extents that its nodes keep. -/
def plain : CachedRegex → Regex
  | empty _ => .empty
  | literal text ignoreCase _ => .literal text ignoreCase
  | set members _ => .set members
  | sequence parts _ => .sequence (plainAll parts)
  | choice options _ => .choice (plainAll options)
  | repetition body least most mode _ => .repetition (plain body) least most mode
  | group kind body _ => .group kind (plain body)
  | backref id extent => .backref id extent

/-- Several trees without the extents that their nodes keep. -/
def plainAll : List CachedRegex → List Regex
  | [] => []
  | tree :: trees => plain tree :: plainAll trees
end

/-! ## Building trees -/

/-- The tree of the empty string. -/
def nothing : CachedRegex :=
  empty .zero

/-- The tree of a text. -/
def ofText (text : List Char) (ignoreCase : Bool) : CachedRegex :=
  if text.isEmpty then nothing else literal text ignoreCase (.ofLength text.length)

/-- The tree of one member of a set. -/
def ofSet (members : CharSet) : CachedRegex :=
  set members (.ofLength 1)

/-- The tree of parts in a row. -/
def inSequence (parts : List CachedRegex) : CachedRegex :=
  if parts.isEmpty then nothing else sequence parts (Extent.inSequence (parts.map extent))

/-- The tree of one of several options. -/
def anyOf (options : List CachedRegex) : CachedRegex :=
  if options.isEmpty then nothing else choice options (Extent.anyOf (options.map extent))

/-- The tree of `least` to `most` copies of a body. A `most` below `least` counts as `least`. -/
def repeated (body : CachedRegex) (least : Nat) (most : Bound)
    (mode : RepetitionMode) : CachedRegex :=
  repetition body least (most.raise least) mode (body.extent.repeated least (most.raise least))

/-- The tree of a body in parentheses. -/
def inGroup (kind : GroupKind) (body : CachedRegex) : CachedRegex :=
  group kind body (if kind.isLookaround then .zero else body.extent)

/-! ## Rewriting trees -/

mutual
/-- Replace every set by another one. -/
def mapSets (replace : CharSet → CharSet) : CachedRegex → CachedRegex
  | set members _ => ofSet (replace members)
  | sequence parts _ => inSequence (mapSetsAll replace parts)
  | choice options _ => anyOf (mapSetsAll replace options)
  | repetition body least most mode _ => repeated (mapSets replace body) least most mode
  | group kind body _ => inGroup kind (mapSets replace body)
  | tree => tree

/-- Replace every set in several trees. -/
def mapSetsAll (replace : CharSet → CharSet) : List CachedRegex → List CachedRegex
  | [] => []
  | tree :: trees => mapSets replace tree :: mapSetsAll replace trees
end

mutual
/-- The tree without its impossible parts, or nothing when the tree is impossible. -/
def prune : CachedRegex → Option CachedRegex
  | set members extent => if members.isEmpty then none else some (set members extent)
  | sequence parts _ => (pruneEach parts).map inSequence
  | choice options _ =>
      match pruneAny options with
      | [] => none
      | options => some (anyOf options)
  | repetition body least most mode _ =>
      match prune body with
      | some body => some (repeated body least most mode)
      | none => if least = 0 then some nothing else none
  | group kind body extent =>
      if kind.isNegated then some (group kind body extent) else (prune body).map (inGroup kind)
  | tree => some tree

/-- All trees without their impossible parts, or nothing when one of them is impossible. -/
def pruneEach : List CachedRegex → Option (List CachedRegex)
  | [] => some []
  | tree :: trees =>
      match prune tree, pruneEach trees with
      | some tree, some trees => some (tree :: trees)
      | _, _ => none

/-- The possible trees without their impossible parts. -/
def pruneAny : List CachedRegex → List CachedRegex
  | [] => []
  | tree :: trees =>
      match prune tree with
      | some tree => tree :: pruneAny trees
      | none => pruneAny trees
end

mutual
/-- Put a simplified tree in front of the parts of a sequence. -/
def prepend : CachedRegex → List CachedRegex → List CachedRegex
  | empty _, rest => rest
  | sequence parts _, rest => prependAll parts rest
  | literal text ignoreCase extent, literal next ignoreCase' extent' :: rest =>
      -- The joined text gets its own length, not the sum of the lengths that were kept.
      if ignoreCase = ignoreCase' then
        literal (text ++ next) ignoreCase (.ofLength (text ++ next).length) :: rest
      else literal text ignoreCase extent :: literal next ignoreCase' extent' :: rest
  | tree, rest => tree :: rest

/-- Put several simplified trees in front of the parts of a sequence. -/
def prependAll : List CachedRegex → List CachedRegex → List CachedRegex
  | [], rest => rest
  | tree :: trees, rest => prepend tree (prependAll trees rest)
end

/-- The options that a simplified tree contributes to a choice. -/
def asOptions : CachedRegex → List CachedRegex
  | choice options _ => options
  | tree => [tree]

/-- A sequence of simplified parts, where a single part stands for itself. -/
def joinParts : List CachedRegex → CachedRegex
  | [part] => part
  | parts => inSequence parts

/-- A choice of simplified options, where a single option stands for itself. -/
def joinOptions : List CachedRegex → CachedRegex
  | [option] => option
  | options => anyOf options

/-- Whether the tree is that of the empty string. -/
def isEmpty : CachedRegex → Bool
  | empty _ => true
  | _ => false

/-- A repetition of a simplified body. -/
def joinCopies (body : CachedRegex) (least : Nat) (most : Bound)
    (mode : RepetitionMode) : CachedRegex :=
  if most = 0 ∨ body.isEmpty = true then nothing
  else if least = 1 ∧ most = 1 then body
  else repeated body least most mode

mutual
/-- The normal form of a tree. -/
def simplify : CachedRegex → CachedRegex
  | sequence parts _ => joinParts (prependAll (simplifyAll parts) [])
  | choice options _ => joinOptions ((simplifyAll options).flatMap asOptions)
  | repetition body least most mode _ => joinCopies (simplify body) least most mode
  | group .plain body _ => simplify body
  | group kind body _ => inGroup kind (simplify body)
  | tree => tree

/-- The normal forms of several trees. -/
def simplifyAll : List CachedRegex → List CachedRegex
  | [] => []
  | tree :: trees => simplify tree :: simplifyAll trees
end

mutual
/-- Size a tree by the extents that it keeps, where `caps` limits the text of capturing groups. -/
def resize (caps : GroupId → Option Nat) : CachedRegex → Nat → StateM SizingPlan CachedRegex
  | backref id extent, target => do
      modify (·.noteBudget id target)
      return backref id (((← get).group? id).getD extent)
  | sequence parts _, target => do
      return inSequence (← resizeParts caps parts (Extent.splitTarget (parts.map extent) target))
  | choice options extent, target => do
      return anyOf (← resizeOptions caps (max target extent.min) options target)
  | repetition body least most mode extent, target => do
      -- Whether the repetition fits is decided by the extent that it keeps.
      let (count, each) :=
        if extent.max.IsWithin target then (most, body.extent.max.finite?.getD body.extent.min)
        else Extent.fitRepetition body.extent least most target
      return repeated (← resize caps body each) least count mode
  | group (.capturing number name) body _, target => do
      let body ← resize caps body (Regex.groupCap caps number name target)
      modify fun plan ↦
        (groupIds number name).foldl (fun plan id ↦ plan.noteGroup id body.extent) plan
      return inGroup (.capturing number name) body
  | group .plain body _, target => return inGroup .plain (← resize caps body target)
  | group .atomic body _, target => return inGroup .atomic (← resize caps body target)
  | tree, _ => return tree

/-- Size parts in a row, each to its own target. -/
def resizeParts (caps : GroupId → Option Nat) :
    List CachedRegex → List Nat → StateM SizingPlan (List CachedRegex)
  | part :: parts, target :: targets => do
      let part ← resize caps part target
      return part :: (← resizeParts caps parts targets)
  | _, _ => return []

/-- Size the options whose least length is within reach, and drop the others. -/
def resizeOptions (caps : GroupId → Option Nat) (reach : Nat) :
    List CachedRegex → Nat → StateM SizingPlan (List CachedRegex)
  | [], _ => return []
  | option :: options, target => do
      if option.extent.min ≤ reach then
        let option ← resize caps option target
        return option :: (← resizeOptions caps reach options target)
      else resizeOptions caps reach options target
end

/-- The tree restructured so that no string exceeds `target`, as far as its least length allows. -/
def sized (tree : CachedRegex) (target : Nat) : CachedRegex :=
  let plan := ((tree.resize (fun _ ↦ none) target).run {}).2
  ((tree.resize plan.budget? target).run {}).1

/-- The trees that can be had: those that are built from texts, from sets and from references to
texts of some length, and those that are rewritten. -/
inductive Obtainable : CachedRegex → Prop
  | ofText (text : List Char) (ignoreCase : Bool) : Obtainable (ofText text ignoreCase)
  | ofSet (members : CharSet) : Obtainable (ofSet members)
  | inSequence {parts : List CachedRegex} (h : ∀ part ∈ parts, Obtainable part) :
      Obtainable (inSequence parts)
  | anyOf {options : List CachedRegex} (h : ∀ option ∈ options, Obtainable option) :
      Obtainable (anyOf options)
  | repeated {body : CachedRegex} (h : Obtainable body) {least : Nat}
      (hleast : least < Size.modulus)
      (most : Bound) (mode : RepetitionMode) : Obtainable (repeated body least most mode)
  | inGroup (kind : GroupKind) {body : CachedRegex} (h : Obtainable body) :
      Obtainable (inGroup kind body)
  | backref (id : GroupId) {extent : Extent} (h : extent.Valid) : Obtainable (backref id extent)
  | simplify {tree : CachedRegex} (h : Obtainable tree) : Obtainable tree.simplify
  | prune {tree left : CachedRegex} (h : Obtainable tree) (hprune : tree.prune = some left) :
      Obtainable left
  | mapSets (replace : CharSet → CharSet) {tree : CachedRegex} (h : Obtainable tree) :
      Obtainable (tree.mapSets replace)
  | sized (target : Nat) {tree : CachedRegex} (h : Obtainable tree) : Obtainable (tree.sized target)

/-- Several trees are plain one by one. -/
@[simp] theorem plainAll_eq_map (trees : List CachedRegex) : plainAll trees = trees.map plain := by
  induction trees with
  | nil => rfl
  | cons tree trees ih => simp [plainAll, ih]

/-- The sets in several trees are replaced tree by tree. -/
@[simp] theorem mapSetsAll_eq_map (replace : CharSet → CharSet) (trees : List CachedRegex) :
    mapSetsAll replace trees = trees.map (mapSets replace) := by
  induction trees with
  | nil => rfl
  | cons tree trees ih => simp [mapSetsAll, ih]

/-- The normal forms of several trees are those of each. -/
@[simp] theorem simplifyAll_eq_map (trees : List CachedRegex) :
    simplifyAll trees = trees.map simplify := by
  induction trees with
  | nil => rfl
  | cons tree trees ih => simp [simplifyAll, ih]

/-- The possible trees are those that are possible one by one. -/
theorem pruneAny_eq_filterMap (trees : List CachedRegex) :
    pruneAny trees = trees.filterMap prune := by
  induction trees with
  | nil => rfl
  | cons tree trees ih =>
    simp only [pruneAny, List.filterMap_cons]
    cases prune tree <;> simp [ih]

/-- The trees inside several trees are those inside each. -/
theorem nodesOfAll_eq_flatMap (trees : List CachedRegex) :
    nodesOfAll trees = trees.flatMap nodes := by
  induction trees with
  | nil => rfl
  | cons tree trees ih => rw [nodesOfAll, ih, List.flatMap_cons]

end CachedRegex

namespace Regex

mutual
/-- The tree with the extent of every node kept in it. -/
def cache : Regex → CachedRegex
  | empty => .empty .zero
  | literal text ignoreCase => .literal text ignoreCase (.ofLength text.length)
  | set members => .set members (.ofLength 1)
  | sequence parts => .sequence (cacheAll parts) (sequence parts).extent
  | choice options => .choice (cacheAll options) (choice options).extent
  | repetition body least most mode =>
      .repetition (cache body) least most mode (repetition body least most mode).extent
  | group kind body => .group kind (cache body) (group kind body).extent
  | backref id extent => .backref id extent

/-- Several trees with the extent of every node kept in them. -/
def cacheAll : List Regex → List CachedRegex
  | [] => []
  | tree :: trees => cache tree :: cacheAll trees
end

/-- The extents of several trees are kept tree by tree. -/
@[simp] theorem cacheAll_eq_map (trees : List Regex) : cacheAll trees = trees.map cache := by
  induction trees with
  | nil => rfl
  | cons tree trees ih => simp [cacheAll, ih]

/-- The extent that is kept in the root is that of the tree. -/
@[simp] theorem extent_cache (tree : Regex) : tree.cache.extent = tree.extent := by
  cases tree <;> rfl

/-- The extents that are kept in the roots of several trees are those of the trees. -/
@[simp] theorem map_extent_cache (trees : List Regex) :
    (trees.map cache).map CachedRegex.extent = extents trees := by
  rw [List.map_map, extents_eq_map]
  exact List.map_congr_left fun tree _ ↦ extent_cache tree

/-- What is kept can be forgotten. -/
@[simp] theorem plain_cache (tree : Regex) : tree.cache.plain = tree := by
  have hlist {trees : List Regex} (h : ∀ tree ∈ trees, tree.cache.plain = tree) :
      (trees.map cache).map CachedRegex.plain = trees := by
    rw [List.map_map]
    exact (List.map_congr_left h).trans (List.map_id trees)
  induction tree with
  | empty => rfl
  | literal text ignoreCase => rfl
  | set members => rfl
  | sequence parts ih =>
    rw [cache, cacheAll_eq_map, CachedRegex.plain, CachedRegex.plainAll_eq_map, hlist ih]
  | choice options ih =>
    rw [cache, cacheAll_eq_map, CachedRegex.plain, CachedRegex.plainAll_eq_map, hlist ih]
  | repetition body least most mode ih => rw [cache, CachedRegex.plain, ih]
  | group kind body ih => rw [cache, CachedRegex.plain, ih]
  | backref id extent => rfl

/-- The extent of a node is the one that belongs to it according to the extents of its children. -/
theorem computed_cache (tree : Regex) : tree.cache.computed = tree.extent := by
  cases tree with
  | empty => rfl
  | literal text ignoreCase => rfl
  | set members => rfl
  | sequence parts =>
    rw [cache, cacheAll_eq_map, CachedRegex.computed, map_extent_cache, extent]
  | choice options =>
    rw [cache, cacheAll_eq_map, CachedRegex.computed, map_extent_cache, extent]
  | repetition body least most mode => rw [cache, CachedRegex.computed, extent_cache, extent]
  | group kind body => rw [cache, CachedRegex.computed, extent_cache, extent]
  | backref id extent => rfl

end Regex

end Exemplar
