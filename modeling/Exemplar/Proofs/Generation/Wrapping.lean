import Exemplar.Proofs.Generation.Budget
import Exemplar.Proofs.Length.Targets

/-!
# Wrappings without effect

One copy of a tree and the tree in a row with the empty string have the strings of the tree. Such a
wrapping is transparent to generation (`IsTransparent`): the tree inside is sized for a target that
may take the place of the whole target, and it is written with a budget that makes no other
difference. So a seed has the same string in the wrapped tree as in the tree
(`IsTransparent.exists_generate`).
-/

namespace Exemplar.Regex

open Generator

/-- A wrapping hands on targets and budgets without effect. The wrapped tree is sized as the tree
is, for a target that may take the place of the other one, and it is written as the tree is, with a
budget that makes no other difference. -/
structure IsTransparent (wrap : Regex → Regex) : Prop where
  sized {tree : Regex} (hvalid : tree.extent.Valid) (target : Nat) :
    ∃ inner, tree.extent.Interchangeable inner target ∧
      (wrap tree).sized target = wrap (tree.sized inner)
  emit {tree : Regex} (hvalid : tree.extent.Valid) (σ : Type) [RandomSource σ] :
    ∃ inner : Nat → Nat,
      (∀ budget < Size.modulus, tree.extent.Indifferent budget (inner budget)) ∧
        ∀ ⦃budget : Option Nat⦄ ⦃before after : Draft σ⦄,
          (tree.emit (budget.map inner)).run before = .ok () after →
            ((wrap tree).emit budget).run before = .ok () after

/-- A tree around another one is sized as the other one is when each round sizes the other one. -/
theorem sized_of_resize (wrap : Regex → Regex) {tree : Regex} {target inner : Nat}
    (h : ∀ caps plan, ((wrap tree).resize caps target).run plan =
      (wrap ((tree.resize caps inner).run plan).1, ((tree.resize caps inner).run plan).2)) :
    (wrap tree).sized target = wrap (tree.sized inner) := by
  rw [sized, h, h]
  rfl

variable {σ : Type} [RandomSource σ]

/-- Parts in a row are written one after the other. -/
theorem emitParts_cons_run {part : Regex} {parts : List Regex} {budget : Option Nat}
    {before middle after : Draft σ}
    (h : (part.emit (budget.map (Extent.firstBudget (part.extent :: extents parts)))).run before =
      .ok () middle)
    (hrest : (emitParts parts (budget.map (· - (middle.length - before.length)))).run middle =
      .ok () after) :
    (emitParts (part :: parts) budget).run before = .ok () after :=
  bind_run_eq_ok.2 ⟨_, middle, measure_run_eq_ok.2 ⟨h, rfl⟩, hrest⟩

/-- One copy of a tree is transparent. -/
theorem isTransparent_repeated (mode : RepetitionMode) : IsTransparent (·.repeated 1 1 mode) where
  sized {tree} _ target := by
    obtain ⟨hone, hinner⟩ := Extent.fitRepetition_one tree.extent target
    refine ⟨_, hinner, sized_of_resize (·.repeated 1 1 mode) fun caps plan ↦ ?_⟩
    exact resize_repetition (Prod.ext hone rfl) mode
  emit {tree} _ σ _ := by
    refine ⟨Extent.copyBudget tree.minLength 1, fun budget hbudget ↦
      Extent.copyBudget_one tree.extent hbudget, fun budget before after hrun ↦ ?_⟩
    show ((repetition tree 1 1 mode).emit budget).run before = .ok () after
    rw [emit_repetition]
    exact bind_run_eq_ok.2 ⟨1, before, rfl,
      bind_run_eq_ok.2 ⟨_, after, measure_run_eq_ok.2 ⟨hrun, rfl⟩, rfl⟩⟩

/-- The empty string in front of a tree is transparent. -/
theorem isTransparent_empty_cons : IsTransparent fun tree ↦ inSequence [.empty, tree] where
  sized {tree} hvalid target := by
    obtain ⟨budget, hbudget, hsplit⟩ := Extent.splitTarget_alone hvalid target 1 0
    have hsplit : Extent.splitTarget (extents [.empty, tree]) target = [0, budget] := hsplit
    refine ⟨budget, Extent.interchangeable_of_alone hbudget,
      sized_of_resize (fun tree ↦ inSequence [.empty, tree]) fun caps plan ↦ ?_⟩
    show ((sequence [.empty, tree]).resize caps target).run plan = _
    rw [resize, hsplit]
    rfl
  emit {tree} hvalid σ _ := by
    refine ⟨Extent.firstBudget [tree.extent], fun budget _ ↦
      Extent.indifferent_firstBudget hvalid budget 0, fun budget before after hrun ↦ ?_⟩
    have hempty (budget : Option Nat) : (Regex.empty.emit budget).run before = .ok () before := rfl
    -- The empty string takes nothing from the budget.
    have hrest : (budget.map (· - (before.length - before.length))) = budget := by
      simp
    refine emitParts_cons_run (hempty _) (emitParts_cons_run ?_ rfl)
    rwa [hrest]

/-- The empty string behind a tree is transparent. -/
theorem isTransparent_append_empty : IsTransparent fun tree ↦ inSequence [tree, .empty] where
  sized {tree} hvalid target := by
    obtain ⟨budget, hbudget, hsplit⟩ := Extent.splitTarget_alone hvalid target 0 1
    have hsplit : Extent.splitTarget (extents [tree, .empty]) target = [budget, 0] := hsplit
    refine ⟨budget, Extent.interchangeable_of_alone hbudget,
      sized_of_resize (fun tree ↦ inSequence [tree, .empty]) fun caps plan ↦ ?_⟩
    show ((sequence [tree, .empty]).resize caps target).run plan = _
    rw [resize, hsplit]
    rfl
  emit {tree} hvalid σ _ := by
    refine ⟨Extent.firstBudget [tree.extent, .zero], fun budget _ ↦
      Extent.indifferent_firstBudget hvalid budget 1, fun budget before after hrun ↦ ?_⟩
    exact emitParts_cons_run hrun (emitParts_cons_run rfl rfl)

variable [RandomSource.Lawful σ]

/-- What is generated from a tree is generated from the tree in a transparent wrapping, if the tree
is sized in the same way for targets that may take the place of each other. Towards a target, the
string is one whose length is a size. -/
theorem IsTransparent.exists_generate {wrap : Regex → Regex} (h : IsTransparent wrap)
    {tree : Regex} (hwell : tree.WellFormed) (hsafe : tree.Safe []) (hvalid : tree.extent.Valid)
    (hsized : ∀ target inner, tree.extent.Interchangeable inner target →
      tree.sized inner = tree.sized target)
    (hmeasured : ∀ target, ∃ sizes, ∀ node ∈ (tree.sized target).visible,
      node.IsMeasured sizes)
    {source next : σ} {target : Option Nat} {value : String}
    (hgenerate : tree.generate source target = .ok (value, next))
    (hsizes : ∀ limit, target = some limit →
      limit < Size.modulus ∧ value.length < Size.modulus) :
    ∃ next', (wrap tree).generate source target = .ok (value, next') := by
  obtain ⟨draft, hrun, rfl, -⟩ := generate_eq_ok.1 hgenerate
  cases target with
  | none =>
    obtain ⟨inner, -, hemit⟩ := h.emit hvalid σ
    exact ⟨draft.source, generate_eq_ok.2 ⟨draft, hemit hrun, rfl, rfl⟩⟩
  | some target =>
    obtain ⟨htarget, hlength⟩ := hsizes target rfl
    obtain ⟨target', htarget', hwrap⟩ := h.sized hvalid target
    rw [hsized target target' htarget'] at hwrap
    obtain ⟨sizes, hmeasured⟩ := hmeasured target
    have hsafe := hsafe.sized hwell target
    have hwell := hwell.sized target
    obtain ⟨inner, hinner, hemit⟩ := h.emit (hsafe.valid hwell hmeasured .nil) σ
    have hlength : draft.length < Size.modulus := by
      simpa [Draft.text, Draft.length] using hlength
    obtain ⟨draft', hrun', houtput⟩ :=
      exists_run_of_indifferent hwell hmeasured (hinner target htarget)
      ⟨.nil, hsafe⟩ hrun hlength
    refine ⟨draft'.source, generate_eq_ok.2
      ⟨draft', ?_, by rw [Draft.text, houtput, Draft.text], rfl⟩⟩
    show (((wrap tree).sized target).emit (some target)).run { source } = .ok () draft'
    rw [hwrap]
    exact hemit hrun'

end Exemplar.Regex
