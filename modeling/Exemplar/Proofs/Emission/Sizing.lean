import Exemplar.Proofs.Emission.Basic
import Exemplar.Proofs.Regex.Sizing

/-!
# Sizing and narrowing only remove strings

A tree that was sized for a target emits nothing that the tree does not emit, whatever the target
is. Neither does a tree whose sets were replaced by subsets.
-/

namespace Exemplar.Regex

open List (Forall₂)

/-- Parts in a row that emit less, part by part, emit less together. -/
theorem emitsAll_mono {parts parts' : List Regex}
    (h : Forall₂ (fun part part' ↦ part'.Emits ≤ part.Emits) parts parts') :
    EmitsAll parts' ≤ EmitsAll parts := by
  induction h with
  | nil => exact le_rfl
  | cons hhead htail ih => exact Emission.andThen_mono hhead ih

/-- Options that emit less, option by option, emit less together. -/
theorem emitsAny_le {options options' : List Regex}
    (h : Forall₂ (fun option option' ↦ option'.Emits ≤ option.Emits) options options') :
    EmitsAny options' ≤ EmitsAny options := by
  intro before text after hemits
  obtain ⟨option', hoption', hemits⟩ := emitsAny_iff.1 hemits
  obtain ⟨option, hoption, hle⟩ := exists_of_forall₂ h hoption'
  exact emitsAny_iff.2 ⟨option, hoption, hle _ _ _ hemits⟩

/-- What sizing makes of a well-formed tree emits nothing that the tree does not emit. -/
theorem IsSizing.emits_le {caps : GroupId → Option Nat} {tree result : Regex}
    (h : IsSizing caps tree result) (hwell : tree.WellFormed) : result.Emits ≤ tree.Emits := by
  induction tree generalizing result with
  | empty => exact h.eq_empty ▸ le_rfl
  | literal text ignoreCase => exact h.eq_literal ▸ le_rfl
  | set members => exact h.eq_set ▸ le_rfl
  | sequence parts ih =>
    rw [wellFormed_sequence] at hwell
    obtain ⟨parts', rfl, hparts⟩ := h.exists_parts
    refine emitsAll_mono ?_
    rw [List.forall₂_iff_zip] at hparts ⊢
    refine ⟨hparts.1, fun {part part'} hzip ↦ ?_⟩
    have hpart := (List.of_mem_zip hzip).1
    exact ih part hpart (hparts.2 hzip) (hwell part hpart)
  | choice options ih =>
    rw [wellFormed_choice] at hwell
    obtain ⟨kept, options', rfl, hsub, -, hoptions⟩ := h.exists_options
    have hkept : EmitsAny options' ≤ EmitsAny kept := by
      refine emitsAny_le ?_
      rw [List.forall₂_iff_zip] at hoptions ⊢
      refine ⟨hoptions.1, fun {option option'} hzip ↦ ?_⟩
      have hoption := hsub option (List.of_mem_zip hzip).1
      exact ih option hoption (hoptions.2 hzip) (hwell.2 option hoption)
    exact le_trans hkept (emitsAny_mono hsub)
  | repetition body least most mode ih =>
    rw [wellFormed_repetition] at hwell
    obtain ⟨body', count, rfl, hbody, hallows⟩ := h.exists_body
    exact emits_repetition_mono (ih hbody hwell.2) (hallows hwell.1.1 hwell.1.2)
  | group kind body ih =>
    rw [wellFormed_group] at hwell
    obtain ⟨body', rfl, hbody, hsame⟩ := h.exists_group
    cases hkind : kind.isLookaround with
    | false => exact emits_group_mono (ih (hbody hkind) hwell)
    | true => exact hsame hkind ▸ le_rfl
  | backref id extent =>
    obtain ⟨extent', rfl⟩ := h.exists_backref
    exact le_rfl

/-- A well-formed tree that was sized for a target emits nothing that the tree does not emit. -/
theorem emits_sized_le {tree : Regex} (h : tree.WellFormed) (target : Nat) :
    (tree.sized target).Emits ≤ tree.Emits := by
  obtain ⟨caps, hsizing⟩ := isSizing_sized tree target
  exact hsizing.emits_le h

/-- A tree whose sets were replaced by subsets emits nothing that the tree does not emit. -/
theorem emits_mapSets_le {replace : CharSet → CharSet}
    (h : ∀ members c, c ∈ replace members → c ∈ members) (tree : Regex) :
    (tree.mapSets replace).Emits ≤ tree.Emits := by
  induction tree with
  | empty => exact le_rfl
  | literal text ignoreCase => exact le_rfl
  | set members =>
    rintro before text after ⟨c, hc, rfl, rfl⟩
    exact ⟨c, h members c hc, rfl, rfl⟩
  | sequence parts ih =>
    rw [mapSets, mapSetsAll_eq_map]
    refine emitsAll_mono (List.forall₂_map_right_iff.2 ?_)
    exact List.forall₂_same.2 ih
  | choice options ih =>
    rw [mapSets, mapSetsAll_eq_map]
    refine emitsAny_le (List.forall₂_map_right_iff.2 ?_)
    exact List.forall₂_same.2 ih
  | repetition body least most mode ih => exact emits_repetition_mono ih fun _ ↦ id
  | group kind body ih => exact emits_group_mono ih
  | backref id extent => exact le_rfl

/-- Replacing the sets of a tree keeps it well-formed. -/
theorem WellFormed.mapSets {tree : Regex} (h : tree.WellFormed) (replace : CharSet → CharSet) :
    (tree.mapSets replace).WellFormed := by
  induction tree with
  | empty => exact trivial
  | literal text ignoreCase => exact trivial
  | set members => exact trivial
  | sequence parts ih =>
    rw [wellFormed_sequence] at h
    rw [Regex.mapSets, mapSetsAll_eq_map, wellFormed_sequence]
    intro part' hpart'
    obtain ⟨part, hpart, rfl⟩ := List.mem_map.1 hpart'
    exact ih part hpart (h part hpart)
  | choice options ih =>
    rw [wellFormed_choice] at h
    rw [Regex.mapSets, mapSetsAll_eq_map, wellFormed_choice]
    refine ⟨by simpa using h.1, fun option' hoption' ↦ ?_⟩
    obtain ⟨option, hoption, rfl⟩ := List.mem_map.1 hoption'
    exact ih option hoption (h.2 option hoption)
  | repetition body least most mode ih =>
    rw [wellFormed_repetition] at h
    exact wellFormed_repetition.2 ⟨h.1, ih h.2⟩
  | group kind body ih =>
    rw [wellFormed_group] at h
    exact wellFormed_group.2 (ih h)
  | backref id extent => exact trivial

end Exemplar.Regex
