import Exemplar.Proofs.CharSet.Algebra
import Exemplar.Proofs.CharSet.CaseChains

/-!
# Closing a set over case

Folding adds the forms of the members, and not the forms of these forms. It is extensive and
additive, and it is idempotent just for the sets whose detours it covers
(`CharSet.foldCase_foldCase_iff`): a folded set with the Kelvin sign has the letter k, but need not
have K. Folding twice covers all detours (`CharSet.foldCase_foldCase_foldCase`). To keep connected
characters together, a folded set must cover the detours and have the characters whose forms it has
as well (`CharSet.isUnited_foldCase_iff`).
-/

namespace Exemplar

namespace CaseFolding

variable {folding : CaseFolding} {c other last : Char} {set : CharSet}

/-- Folding the set adds the ends of the detours that start at members. -/
def Covers (folding : CaseFolding) (set : CharSet) : Prop :=
  ∀ detour ∈ folding.detours, detour.first ∈ set → detour.last ∈ set.foldCase folding

/-- The set has both or none of any two characters that the case maps connect. -/
def IsUnited (folding : CaseFolding) (set : CharSet) : Prop :=
  ∀ c other, folding.Connects c other → (c ∈ set ↔ other ∈ set)

/-- The case maps connect characters that a set can hold. -/
theorem Connects.canHold (h : folding.Connects c other) :
    CharSet.canHold c = true ∧ CharSet.canHold other = true := by
  obtain ⟨hcode, hform⟩ := le_of_mem_pairs h
  exact ⟨decide_eq_true hcode, decide_eq_true hform⟩

/-- Two case maps lead back, to another form of the character or along a detour. -/
theorem Connects.chain (h : folding.Connects c other) (hlast : folding.Connects other last) :
    last = c ∨ folding.Connects c last ∨
      ∃ detour ∈ folding.detours, detour.first = c ∧ detour.last = last := by
  rcases chain_cases h hlast with hback | hform | ⟨detour, hdetour, hfirst, hlast⟩
  · exact .inl (Char.toNat_inj.1 hback)
  · exact .inr (.inl hform)
  · exact .inr (.inr ⟨detour, hdetour, Char.toNat_inj.1 hfirst, Char.toNat_inj.1 hlast⟩)

/-- When only the letters of ASCII have two cases, the case maps lead back. -/
theorem Connects.symm (hsimple : folding ≠ .unicode) (h : folding.Connects c other) :
    folding.Connects other c := by
  cases folding with
  | none => cases h
  | ascii => exact (asciiPairs_back _ h).1
  | unicode => exact absurd rfl hsimple

/-- Folding covers the detours when only the letters of ASCII have two cases. -/
theorem covers_of_ne_unicode (hsimple : folding ≠ .unicode) (set : CharSet) :
    folding.Covers set :=
  fun _ hdetour _ ↦ absurd (eq_unicode_of_mem_detours hdetour) hsimple

/-- A complement keeps the characters together that the set keeps together. -/
theorem IsUnited.negate (h : folding.IsUnited set) : folding.IsUnited set.negate := by
  intro c other hconnects
  obtain ⟨hc, hother⟩ := hconnects.canHold
  rw [CharSet.mem_negate, CharSet.mem_negate, h c other hconnects, hc, hother]

end CaseFolding

namespace CharSet

open CaseFolding

variable {folding : CaseFolding} {set : CharSet} {c other : Char}

/-- Sets with the same members are equal. -/
theorem ext_of_mem {first second : CharSet} (h : ∀ c, c ∈ first ↔ c ∈ second) :
    first = second :=
  ext_of_contains fun c ↦ Bool.eq_iff_iff.2 (h c)

/-- The members of a folded set are the members and their forms. -/
theorem mem_foldCase_iff_connects :
    c ∈ set.foldCase folding ↔ c ∈ set ∨ ∃ other ∈ set, folding.Connects other c := by
  rw [mem_foldCase]
  refine or_congr_right (and_iff_left_of_imp ?_)
  rintro ⟨other, -, hconnects⟩
  exact hconnects.canHold.2

/-- Folding keeps the members. -/
theorem mem_foldCase_of_mem (h : c ∈ set) : c ∈ set.foldCase folding :=
  mem_foldCase_iff_connects.2 (.inl h)

/-- Folding adds the forms of the members. -/
theorem mem_foldCase_of_connects (h : c ∈ set) (hconnects : folding.Connects c other) :
    other ∈ set.foldCase folding :=
  mem_foldCase_iff_connects.2 (.inr ⟨c, h, hconnects⟩)

/-- Folding a union folds both sets. -/
theorem foldCase_union (first second : CharSet) (folding : CaseFolding) :
    (first ∪ second).foldCase folding = first.foldCase folding ∪ second.foldCase folding := by
  refine ext_of_mem fun c ↦ ?_
  simp only [mem_union, mem_foldCase_iff_connects, or_and_right, exists_or]
  exact or_or_or_comm

/-- A folded set has the forms of its members when the set's detours are covered. -/
theorem mem_foldCase_of_covers (hcovers : folding.Covers set) (h : c ∈ set.foldCase folding)
    (hconnects : folding.Connects c other) : other ∈ set.foldCase folding := by
  rcases mem_foldCase_iff_connects.1 h with hmem | ⟨first, hmem, hfirst⟩
  · exact mem_foldCase_of_connects hmem hconnects
  · rcases hfirst.chain hconnects with rfl | hform | ⟨detour, hdetour, rfl, rfl⟩
    · exact mem_foldCase_of_mem hmem
    · exact mem_foldCase_of_connects hmem hform
    · exact hcovers detour hdetour hmem

/-- Folding twice covers a detour. -/
theorem last_mem_foldCase_foldCase {detour : Detour} (hdetour : detour ∈ folding.detours)
    (h : detour.first ∈ set) : detour.last ∈ (set.foldCase folding).foldCase folding := by
  obtain ⟨hvia, hlast⟩ := mem_pairs_of_detour hdetour
  exact mem_foldCase_of_connects (mem_foldCase_of_connects h hvia) hlast

/-- Folding the start of a detour alone does not cover the detour. -/
theorem last_not_mem_foldCase_single {detour : Detour} (hdetour : detour ∈ folding.detours) :
    detour.last ∉ (single detour.first).foldCase folding := by
  intro h
  rcases mem_foldCase_iff_connects.1 h with hmem | ⟨other, hother, hconnects⟩
  · exact last_ne_first hdetour (mem_single.1 hmem).1
  · obtain ⟨rfl, -⟩ := mem_single.1 hother
    exact not_mem_pairs_of_detour hdetour hconnects

/-- Folding is idempotent just when it covers the detours. -/
theorem foldCase_foldCase_iff :
    (set.foldCase folding).foldCase folding = set.foldCase folding ↔ folding.Covers set := by
  constructor
  · intro heq detour hdetour hfirst
    rw [← heq]
    exact last_mem_foldCase_foldCase hdetour hfirst
  · intro hcovers
    refine ext_of_mem fun c ↦ ⟨fun h ↦ ?_, mem_foldCase_of_mem⟩
    rcases mem_foldCase_iff_connects.1 h with hmem | ⟨other, hother, hconnects⟩
    · exact hmem
    · exact mem_foldCase_of_covers hcovers hother hconnects

/-- Folding twice is enough. -/
theorem foldCase_foldCase_foldCase (set : CharSet) (folding : CaseFolding) :
    ((set.foldCase folding).foldCase folding).foldCase folding =
      (set.foldCase folding).foldCase folding := by
  refine foldCase_foldCase_iff.2 fun detour hdetour hfirst ↦ ?_
  rcases mem_foldCase_iff_connects.1 hfirst with hmem | ⟨other, -, hconnects⟩
  · exact last_mem_foldCase_foldCase hdetour hmem
  · -- Folding adds no character at which a detour starts.
    exact absurd rfl (first_ne_form hdetour hconnects)

/-- A folded set keeps connected characters together just when the detours are covered and a form
in the set comes with every character of which it is a form, as far as the case maps do not lead
back to the character. -/
theorem isUnited_foldCase_iff :
    folding.IsUnited (set.foldCase folding) ↔ folding.Covers set ∧
      ∀ c other, folding.Connects c other → ¬ folding.Connects other c →
        other ∈ set.foldCase folding → c ∈ set.foldCase folding := by
  constructor
  · intro hunited
    refine ⟨fun detour hdetour hfirst ↦ ?_,
      fun c other hconnects _ ↦ (hunited c other hconnects).2⟩
    obtain ⟨hvia, hlast⟩ := mem_pairs_of_detour hdetour
    exact (hunited _ _ hlast).1 (mem_foldCase_of_connects hfirst hvia)
  · rintro ⟨hcovers, hback⟩ c other hconnects
    refine ⟨fun h ↦ mem_foldCase_of_covers hcovers h hconnects, fun h ↦ ?_⟩
    by_cases hsymm : folding.Connects other c
    · exact mem_foldCase_of_covers hcovers h hsymm
    · exact hback c other hconnects hsymm h

/-- A folded set keeps connected characters together when only the letters of ASCII have two
cases. -/
theorem isUnited_foldCase (hsimple : folding ≠ .unicode) (set : CharSet) :
    folding.IsUnited (set.foldCase folding) :=
  isUnited_foldCase_iff.2 ⟨covers_of_ne_unicode hsimple set, fun _ _ hconnects hback ↦
    absurd (hconnects.symm hsimple) hback⟩

/-- What folding makes of sets. The members are kept, and a union is folded part by part. Folding
again changes nothing just when the detours are covered, and folding a third time never does. By
`united`, the folded set and its complement keep connected characters together just when the
detours are covered and a form in the set comes with every character of which it is a form, as far
as the case maps do not lead back to the character. All of it holds when only the letters of ASCII
have two cases. -/
structure FoldLaws (folding : CaseFolding) (first second : CharSet) : Prop where
  extensive (c : Char) : c ∈ first → c ∈ first.foldCase folding
  union : (first ∪ second).foldCase folding = first.foldCase folding ∪ second.foldCase folding
  idempotent :
    (first.foldCase folding).foldCase folding = first.foldCase folding ↔ folding.Covers first
  twice : ((first.foldCase folding).foldCase folding).foldCase folding =
    (first.foldCase folding).foldCase folding
  united : folding.IsUnited (first.foldCase folding) ∧
  folding.IsUnited (first.foldCase folding).negate ↔
    folding.Covers first ∧ ∀ c other, folding.Connects c other →
    ¬ folding.Connects other c →
      other ∈ first.foldCase folding → c ∈ first.foldCase folding
  simple : folding = .unicode ∨
    (first.foldCase folding).foldCase folding = first.foldCase folding ∧
      folding.IsUnited (first.foldCase folding) ∧ folding.IsUnited (first.foldCase folding).negate

/-- Folding is extensive and additive, it is idempotent for the sets whose detours it covers, and
it is a closure operator that keeps connected characters together when only the letters of ASCII
have two cases. -/
theorem foldLaws (folding : CaseFolding) (first second : CharSet) :
    FoldLaws folding first second where
  extensive _ := mem_foldCase_of_mem
  union := foldCase_union first second folding
  idempotent := foldCase_foldCase_iff
  twice := foldCase_foldCase_foldCase first folding
  united := (and_iff_left_of_imp IsUnited.negate).trans isUnited_foldCase_iff
  simple := by
    refine or_iff_not_imp_left.2 fun hsimple ↦ ?_
    have hcovers : folding.Covers first := covers_of_ne_unicode hsimple first
    have hunited : folding.IsUnited (first.foldCase folding) :=
      isUnited_foldCase_iff.2 ⟨hcovers, fun c other hconnects hback ↦
        absurd (hconnects.symm hsimple) hback⟩
    exact ⟨foldCase_foldCase_iff.2 hcovers, hunited, hunited.negate⟩

/-- Folding the Kelvin sign adds k and not K, which is the upper case of k: folding again changes
the set, and neither the set nor its complement keeps the two letters together. -/
theorem foldCase_foldCase_ne_kelvinSign :
    ((single '\u212A').foldCase .unicode).foldCase .unicode ≠
      (single '\u212A').foldCase .unicode ∧
      ¬ CaseFolding.unicode.IsUnited ((single '\u212A').foldCase .unicode) ∧
      ¬ CaseFolding.unicode.IsUnited ((single '\u212A').foldCase .unicode).negate := by
  have hdetour : (⟨'\u212A', 'k', 'K'⟩ : Detour) ∈ CaseFolding.unicode.detours := by decide
  have hconnects : CaseFolding.unicode.Connects 'k' 'K' := (mem_pairs_of_detour hdetour).2
  have hsign : '\u212A' ∈ single '\u212A' := mem_single.2 ⟨rfl, rfl⟩
  have hmem : 'k' ∈ (single '\u212A').foldCase .unicode :=
    mem_foldCase_of_connects hsign (mem_pairs_of_detour hdetour).1
  have hnotMem : 'K' ∉ (single '\u212A').foldCase .unicode := last_not_mem_foldCase_single hdetour
  refine ⟨fun heq ↦ ?_, fun hunited ↦ ?_, fun hunited ↦ ?_⟩
  · exact hnotMem (heq ▸ mem_foldCase_of_connects hmem hconnects)
  · exact hnotMem ((hunited _ _ hconnects).1 hmem)
  · have hcomplement := (hunited _ _ hconnects).2 (mem_negate.2 ⟨rfl, hnotMem⟩)
    exact (mem_negate.1 hcomplement).2 hmem

end CharSet

end Exemplar
