import Exemplar.Proofs.Regex.Induction
import Exemplar.Regex.Sized

/-!
# Replacing sets and sizing

A set stands for one character, whatever its members are. So a tree whose sets are replaced has the
extent of the tree (`extent_mapSets`), and it makes no difference whether the sets are replaced
before or after the tree is sized (`sized_mapSets`).
-/

namespace Exemplar.Regex

variable (replace : CharSet → CharSet)

/-- Replacing the sets of a tree keeps its extent. -/
@[simp] theorem extent_mapSets (tree : Regex) : (tree.mapSets replace).extent = tree.extent := by
  have hlist {trees : List Regex} (h : ∀ tree ∈ trees,
      (tree.mapSets replace).extent = tree.extent) :
      (trees.map (mapSets replace)).map extent = trees.map extent := by
    rw [List.map_map]
    exact List.map_congr_left h
  induction tree with
  | empty => rfl
  | literal text ignoreCase => rfl
  | set members => rfl
  | sequence parts ih =>
    rw [mapSets, mapSetsAll_eq_map, extent, extents_eq_map, hlist ih, extent, extents_eq_map]
  | choice options ih =>
    rw [mapSets, mapSetsAll_eq_map, extent, extents_eq_map, hlist ih, extent, extents_eq_map]
  | repetition body least most mode ih => rw [mapSets, extent, ih, extent]
  | group kind body ih => rw [mapSets, extent, ih, extent]
  | backref id extent => rfl

/-- Replacing the sets of several trees keeps their extents. -/
@[simp] theorem extents_map_mapSets (trees : List Regex) :
    extents (trees.map (mapSets replace)) = extents trees := by
  rw [extents_eq_map, List.map_map, extents_eq_map]
  exact List.map_congr_left fun tree _ ↦ extent_mapSets replace tree

/-- Replacing the sets of a tree keeps its least length. -/
@[simp] theorem minLength_mapSets (tree : Regex) :
    (tree.mapSets replace).minLength = tree.minLength :=
  congrArg Extent.min (extent_mapSets replace tree)

/-- The sets of the tree may be replaced before or after a round of sizing. -/
def ReplacesAlike (caps : GroupId → Option Nat) (tree : Regex) : Prop :=
  ∀ target, (tree.mapSets replace).resize caps target =
    mapSets replace <$> tree.resize caps target

section Round

variable {replace} {caps : GroupId → Option Nat} {parts options : List Regex}

/-- The sets of parts in a row may be replaced before or after a round of sizing. -/
theorem resizeParts_map_mapSets (h : ∀ part ∈ parts, part.ReplacesAlike replace caps)
    (targets : List Nat) :
    resizeParts caps (parts.map (mapSets replace)) targets =
      List.map (mapSets replace) <$> resizeParts caps parts targets := by
  induction parts generalizing targets with
  | nil => simp [resizeParts]
  | cons part parts ih =>
    obtain ⟨hpart, hparts⟩ := List.forall_mem_cons.1 h
    cases targets with
    | nil => simp [resizeParts]
    | cons target targets =>
      rw [List.map_cons, resizeParts, hpart, ih hparts, resizeParts]
      simp

/-- The sets of options may be replaced before or after a round of sizing. -/
theorem resizeOptions_map_mapSets (h : ∀ option ∈ options, option.ReplacesAlike replace caps)
    (reach target : Nat) :
    resizeOptions caps reach (options.map (mapSets replace)) target =
      List.map (mapSets replace) <$> resizeOptions caps reach options target := by
  induction options with
  | nil => simp [resizeOptions]
  | cons option options ih =>
    obtain ⟨hoption, hoptions⟩ := List.forall_mem_cons.1 h
    rw [List.map_cons, resizeOptions, minLength_mapSets, hoption, ih hoptions, resizeOptions]
    split
    · simp
    · rfl

/-- The sets of a tree may be replaced before or after a round of sizing. -/
theorem replacesAlike (tree : Regex) : tree.ReplacesAlike replace caps := by
  induction tree with
  | empty => exact fun target ↦ rfl
  | literal text ignoreCase => exact fun target ↦ rfl
  | set members => exact fun target ↦ rfl
  | sequence parts ih =>
    intro target
    rw [mapSets, mapSetsAll_eq_map, resize, extents_map_mapSets, resizeParts_map_mapSets ih, resize]
    simp [mapSets]
  | choice options ih =>
    intro target
    have hmin : (choice (options.map (mapSets replace))).minLength =
        (choice options).minLength := by
      rw [← mapSetsAll_eq_map, ← mapSets, minLength_mapSets]
    rw [mapSets, mapSetsAll_eq_map, resize, hmin, resizeOptions_map_mapSets ih, resize]
    simp [mapSets]
  | repetition body least most mode ih =>
    intro target
    rw [mapSets, resize, extent_mapSets, resize]
    rcases Extent.fitRepetition body.extent least most target with ⟨count, each⟩
    dsimp only
    rw [ih each]
    simp [mapSets, repeated]
  | group kind body ih =>
    intro target
    cases kind with
    | capturing number name =>
      rw [mapSets, resize, ih, resize]
      simp [mapSets]
    | plain =>
      rw [mapSets, resize, ih, resize]
      simp [mapSets]
    | atomic =>
      rw [mapSets, resize, ih, resize]
      simp [mapSets]
    | lookahead negated => rfl
    | lookbehind negated => rfl
  | backref id extent => exact fun target ↦ rfl

end Round

/-- The sets of a tree may be replaced before or after the tree is sized. -/
theorem sized_mapSets (tree : Regex) (target : Nat) :
    (tree.mapSets replace).sized target = (tree.sized target).mapSets replace := by
  have hround (caps : GroupId → Option Nat) :
      ((tree.mapSets replace).resize caps target).run {} =
        (((tree.resize caps target).run {}).1.mapSets replace,
          ((tree.resize caps target).run {}).2) := by
    rw [replacesAlike tree target]
    rfl
  rw [sized, hround, hround]
  rfl

end Exemplar.Regex
