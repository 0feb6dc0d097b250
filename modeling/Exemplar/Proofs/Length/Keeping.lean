import Exemplar.Proofs.Length.Budget
import Exemplar.Proofs.Length.Emission

/-!
# Trees that keep to a budget

A tree keeps to a budget under some caps on its groups when neither its extent nor any of its texts
exceeds the budget, as long as no captured text exceeds the cap on its group. Parts in a row keep to
the sum of their budgets, and copies to the product of their length and their number.
-/

namespace Exemplar

open List (Forall₂)

/-- The lengths that the caps admit for the text of a group. -/
def capExtent (caps : GroupId → Option Nat) (id : GroupId) : Extent :=
  ⟨0, (caps id).elim .unbounded .ofExact, Size.zero_lt_modulus⟩

/-- The lengths that are admitted for a group with a cap. -/
theorem capExtent_eq {caps : GroupId → Option Nat} {id : GroupId} {cap : Nat}
    (h : caps id = some cap) :
    capExtent caps id = .upTo cap := by
  simp [capExtent, h, Extent.upTo]

/-- Texts within an extent are within a wider one. -/
theorem Emission.Measured.mono {emission : Emission} {sizes : GroupId → Extent}
    {extent wider : Extent} (h : emission.Measured sizes extent) (hwithin : extent.Within wider) :
    emission.Measured sizes wider :=
  fun _ _ _ hemits hbefore ↦ ⟨hwithin.mem (h hemits hbefore).1, (h hemits hbefore).2⟩

namespace Regex

/-- The tree keeps to a budget: neither its extent nor, as long as groups keep to their caps, any
of its texts exceeds it, and its groups keep to their caps. -/
structure KeepsTo (caps : GroupId → Option Nat) (tree : Regex) (budget : Nat) : Prop where
  extent : tree.extent.Within (.upTo budget)
  emits : tree.Emits.Measured (capExtent caps) (.upTo budget)

namespace KeepsTo

variable {caps : GroupId → Option Nat} {tree body : Regex} {parts options : List Regex}
  {budget larger : Nat}

/-- A tree that is measured by its own extent keeps to a budget when its extent does. -/
theorem of_measured (h : tree.Emits.Measured (capExtent caps) tree.extent)
    (hextent : tree.extent.Within (.upTo budget)) : KeepsTo caps tree budget :=
  ⟨hextent, h.mono hextent⟩

/-- A tree that keeps to a budget keeps to a larger one. -/
theorem mono (h : KeepsTo caps tree budget) (hle : budget ≤ larger) : KeepsTo caps tree larger :=
  ⟨h.extent.trans (Extent.upTo_mono hle), h.emits.mono (Extent.upTo_mono hle)⟩

/-- Parts in a row keep to the sum of their budgets. -/
theorem sequence {budgets : List Nat} (h : Forall₂ (KeepsTo caps) parts budgets) :
    KeepsTo caps (sequence parts) budgets.sum := by
  induction h with
  | nil => exact of_measured Emission.measured_nothing (Extent.zero_within_upTo 0)
  | @cons part budget parts budgets hpart hparts ih =>
    rw [List.sum_cons]
    constructor
    · rw [← Extent.upTo_followedBy]
      exact hpart.extent.followedBy ih.extent
    · rw [← Extent.upTo_followedBy]
      exact hpart.emits.andThen ih.emits

/-- Options that keep to a budget keep to it together. -/
theorem choice (h : ∀ option ∈ options, KeepsTo caps option budget) :
    KeepsTo caps (choice options) budget := by
  constructor
  · rw [Regex.extent, extents_eq_map]
    refine Extent.anyOf_within_upTo fun extent hextent ↦ ?_
    obtain ⟨option, hoption, rfl⟩ := List.mem_map.1 hextent
    exact (h option hoption).extent
  · intro before text after hemits hbefore
    obtain ⟨option, hoption, hemits⟩ := emitsAny_iff.1 hemits
    exact (h option hoption).emits hemits hbefore

/-- Copies of a tree keep to a budget when as many copies of the longest text do. -/
theorem repetition {each least : Nat} {most : Bound} {mode : RepetitionMode}
    (h : KeepsTo caps body each) (hbudget : Bound.ofExact each * most ≤ .ofExact budget) :
    KeepsTo caps (repetition body least most mode) budget := by
  constructor
  · exact Extent.within_upTo.2 (le_trans (Bound.mul_le_mul_left h.extent.ceiling_le most) hbudget)
  · rintro before text after ⟨count, -, hmost, hcopies⟩ hbefore
    obtain ⟨⟨-, length, hlength, hle⟩, hafter⟩ := h.emits.copies count hcopies hbefore
    exact ⟨⟨Nat.zero_le _, ((hlength.mul hmost).mono hle).of_le hbudget⟩, hafter⟩

/-- No copies keep to every budget. -/
theorem noCopies {least : Nat} {mode : RepetitionMode} :
    KeepsTo caps (.repetition body least 0 mode) budget := by
  constructor
  · refine Extent.within_upTo.2 ?_
    show body.extent.max * 0 ≤ _
    rw [Bound.mul_zero]
    exact Bound.le_of_allows fun number h ↦ Nat.le_zero.1 h ▸ Bound.allows_zero _
  · rintro before text after ⟨count, -, hmost, hcopies⟩ hbefore
    cases Nat.le_zero.1 hmost
    obtain ⟨rfl, rfl⟩ := hcopies
    exact ⟨⟨Nat.le_refl _, Bound.allows_zero _⟩, hbefore⟩

/-- A capturing group keeps to a budget that no cap on it falls below. -/
theorem capturing {number : Nat} {name : Option String} (h : KeepsTo caps body budget)
    (hcaps : ∀ id ∈ groupIds number name, ∀ cap, caps id = some cap → budget ≤ cap) :
    KeepsTo caps (group (.capturing number name) body) budget := by
  refine ⟨h.extent, h.emits.capturing fun id hid ↦ ?_⟩
  cases hcap : caps id with
  | none => exact ⟨Nat.le_refl _, by simp [capExtent, hcap]⟩
  | some cap => exact capExtent_eq hcap ▸ Extent.upTo_mono (hcaps id hid cap hcap)

/-- A backreference keeps to a budget that does not fall below the cap on its group. -/
theorem backref {id : GroupId} {extent : Extent} {cap : Nat} (hcap : caps id = some cap)
    (hle : cap ≤ budget) (hextent : extent.Within (.upTo cap)) :
    KeepsTo caps (.backref id extent) budget := by
  refine ⟨hextent.trans (Extent.upTo_mono hle), ?_⟩
  rintro before text after ⟨hfind, rfl⟩ hbefore
  have hlength := hbefore hfind
  rw [capExtent_eq hcap] at hlength
  exact ⟨(Extent.upTo_mono hle).mem hlength, hbefore⟩

end KeepsTo

end Regex

end Exemplar
