import Exemplar.CharSet.Narrow
import Exemplar.Proofs.CharSet.Members

/-!
# Narrowed sets

Narrowing a set to a level adds no members (`mem_of_mem_narrow`) and takes them all only from the
empty set (`isEmpty_narrow`).
-/

namespace Exemplar.CharSet

/-- A level keeps members of the set. -/
theorem mem_of_mem_restrict {set : CharSet} {level : Nat} {c : Char}
    (h : c ∈ set.restrict level) :
    c ∈ set := by
  unfold restrict at h
  split at h
  · have h : (set ∩ alphanumeric).contains c = true := h
    rw [contains_inter, Bool.and_eq_true] at h
    exact h.1
  · have h : (set ∩ lowerAlphanumeric).contains c = true := h
    rw [contains_inter, Bool.and_eq_true] at h
    exact h.1
  · split at h
    · rename_i first hfirst
      rw [eq_of_mem_single h]
      exact mem_of_nth? hfirst
    · cases h

/-- A step of narrowing keeps members of the set. -/
theorem mem_of_mem_narrowStep {set : CharSet} {level : Nat} {c : Char}
    (h : c ∈ set.narrowStep level) :
    c ∈ set := by
  unfold narrowStep at h
  split at h
  · exact h
  · exact mem_of_mem_restrict h

/-- Narrowing keeps members of the set. -/
theorem mem_of_mem_narrow {set : CharSet} {level : Nat} {c : Char} (h : c ∈ set.narrow level) :
    c ∈ set := by
  unfold narrow at h
  generalize List.range _ = levels at h
  induction levels generalizing set with
  | nil => exact h
  | cons level levels ih => exact mem_of_mem_narrowStep (ih h)

/-- A step of narrowing leaves members of a set that has some. -/
theorem isEmpty_narrowStep (set : CharSet) (level : Nat) :
    (set.narrowStep level).isEmpty = set.isEmpty := by
  unfold narrowStep
  split
  · rfl
  · rename_i hsome
    -- A member that is left was one before.
    have hrestrict : (set.restrict level).isEmpty = false := by simpa using hsome
    obtain ⟨c, hc⟩ := isEmpty_eq_false_iff.1 hrestrict
    rw [hrestrict, isEmpty_eq_false_iff.2 ⟨c, mem_of_mem_restrict hc⟩]

/-- Narrowing leaves members of a set that has some. -/
theorem isEmpty_narrow (set : CharSet) (level : Nat) :
    (set.narrow level).isEmpty = set.isEmpty := by
  unfold narrow
  generalize List.range _ = levels
  induction levels generalizing set with
  | nil => rfl
  | cons level levels ih => rw [List.foldl_cons, ih, isEmpty_narrowStep]

end Exemplar.CharSet
