import Exemplar.Proofs.CharSet.Algebra
import Exemplar.Proofs.CharSet.Enumeration
import Exemplar.Proofs.CharSet.Narrow

/-!
# Levels of narrowing

A set is settled at a level when the step to that level leaves it as it is: the level keeps all
members or none, or there is at most one member left. A step settles the set
(`settled_narrowStep`), and no later step unsettles it, because every part of a settled set is
settled (`Settled.mono`). So the steps that were taken change nothing when they are taken again
(`steps_steps`), and narrowing to one level and then to another is narrowing to the higher of the
two (`isNarrowingChain`).
-/

namespace Exemplar.CharSet

variable {set part : CharSet} {level : Nat} {c : Char}

/-! ## What a level keeps -/

/-- A set is empty when it has no members. -/
theorem isEmpty_iff : set.isEmpty = true ↔ ∀ c, c ∉ set := by
  rw [← Bool.not_eq_false, isEmpty_eq_false_iff, not_exists]

/-- The set that is found to be empty is the one without members. -/
theorem isEmpty_iff_eq_empty : set.isEmpty = true ↔ set = empty := by
  constructor
  · exact fun h ↦ eq_empty_of_weight (beq_iff_eq.1 h)
  · rintro rfl
    rfl

/-- The levels before the last one keep the members that are in an alphabet. -/
theorem exists_alphabet (h : level < 2) :
    ∃ alphabet, ∀ set : CharSet, set.restrict level = set ∩ alphabet := by
  obtain rfl | rfl : level = 0 ∨ level = 1 := by omega
  · exact ⟨alphanumeric, fun _ ↦ rfl⟩
  · exact ⟨lowerAlphanumeric, fun _ ↦ rfl⟩

/-- The last level keeps the member with the least code point. -/
theorem exists_restrict_eq (h : 2 ≤ level) (hc : c ∈ set) : ∃ first ∈ set,
    (∀ other ∈ set, first.toNat ≤ other.toNat) ∧ set.restrict level = single first := by
  cases hlist : set.toList with
  | nil =>
    have hmem := mem_toList.2 hc
    rw [hlist] at hmem
    cases hmem
  | cons first rest =>
    have hsorted := set.toList_sorted
    rw [hlist, List.pairwise_cons] at hsorted
    refine ⟨first, mem_toList.1 (hlist ▸ List.mem_cons_self), fun other hother ↦ ?_, ?_⟩
    · have hmem := mem_toList.2 hother
      rw [hlist] at hmem
      rcases List.mem_cons.1 hmem with rfl | hrest
      · exact Nat.le_refl _
      · exact Nat.le_of_lt (hsorted.1 other hrest)
    · have hnth : set.nth? 0 = some first := by rw [nth?_eq_getElem?, hlist]; rfl
      obtain ⟨level, rfl⟩ := Nat.exists_eq_add_of_le' h
      simp only [restrict, hnth]

/-! ## Settled sets -/

/-- The step to the level leaves the set as it is. -/
def Settled (set : CharSet) (level : Nat) : Prop :=
  set.narrowStep level = set

/-- A set is settled when the level keeps all members or none. -/
theorem settled_iff :
    set.Settled level ↔ (∀ c, c ∉ set.restrict level) ∨
    ∀ c ∈ set, c ∈ set.restrict level := by
  unfold Settled narrowStep
  split
  · rename_i hempty
    exact iff_of_true rfl (.inl (isEmpty_iff.1 hempty))
  · rename_i hsome
    rw [isEmpty_iff] at hsome
    rw [or_iff_right hsome]
    constructor
    · intro heq c hc
      rwa [heq]
    · intro hall
      exact ext_of_contains fun c ↦ Bool.eq_iff_iff.2 ⟨mem_of_mem_restrict, hall c⟩

/-- Where a level keeps an alphabet, a set is settled when it is apart from the alphabet or inside
it. -/
theorem settled_iff_of_alphabet {alphabet : CharSet}
    (h : ∀ set : CharSet, set.restrict level = set ∩ alphabet) :
    set.Settled level ↔ (∀ c ∈ set, c ∉ alphabet) ∨ ∀ c ∈ set, c ∈ alphabet := by
  simp only [settled_iff, h, mem_inter, not_and]
  exact or_congr_right (forall₂_congr fun c hc ↦ and_iff_right hc)

/-- A set is settled at the last level when it has no two members. -/
theorem settled_iff_of_last (h : 2 ≤ level) :
    set.Settled level ↔ ∀ c ∈ set, ∀ other ∈ set, c = other := by
  rw [settled_iff]
  constructor
  · intro hsettled c hc other hother
    obtain ⟨first, hfirst, -, heq⟩ := exists_restrict_eq h hc
    rw [heq] at hsettled
    rcases hsettled with hnone | hall
    · exact absurd (mem_single.2 ⟨rfl, canHold_of_mem hfirst⟩) (hnone first)
    · rw [eq_of_mem_single (hall c hc), eq_of_mem_single (hall other hother)]
  · intro hone
    refine .inr fun c hc ↦ ?_
    obtain ⟨first, hfirst, -, heq⟩ := exists_restrict_eq h hc
    rw [heq]
    exact mem_single.2 ⟨hone c hc first hfirst, canHold_of_mem hc⟩

/-- A part of a settled set is settled. -/
theorem Settled.mono (h : set.Settled level) (hpart : ∀ c ∈ part, c ∈ set) :
    part.Settled level := by
  by_cases hlevel : level < 2
  · obtain ⟨alphabet, halphabet⟩ := exists_alphabet hlevel
    rw [settled_iff_of_alphabet halphabet] at h ⊢
    exact h.imp (fun hapart c hc ↦ hapart c (hpart c hc)) fun hinside c hc ↦
      hinside c (hpart c hc)
  · rw [settled_iff_of_last (Nat.not_lt.1 hlevel)] at h ⊢
    exact fun c hc other hother ↦ h c (hpart c hc) other (hpart other hother)

/-- A step settles the set. -/
theorem settled_narrowStep (set : CharSet) (level : Nat) :
    (set.narrowStep level).Settled level := by
  unfold narrowStep
  split
  · rename_i hempty
    exact settled_iff.2 (.inl (isEmpty_iff.1 hempty))
  · by_cases hlevel : level < 2
    · obtain ⟨alphabet, halphabet⟩ := exists_alphabet hlevel
      rw [settled_iff_of_alphabet halphabet, halphabet]
      exact .inr fun c hc ↦ (mem_inter.1 hc).2
    · have hlast := Nat.not_lt.1 hlevel
      rw [settled_iff_of_last hlast]
      intro c hc other hother
      obtain ⟨first, -, -, heq⟩ := exists_restrict_eq hlast (mem_of_mem_restrict hc)
      rw [heq] at hc hother
      rw [eq_of_mem_single hc, eq_of_mem_single hother]

/-! ## Steps in a row -/

/-- Take the first steps of narrowing. -/
def steps (set : CharSet) (count : Nat) : CharSet :=
  (List.range count).foldl narrowStep set

/-- Narrowing takes the steps up to the level, of which there are three. -/
theorem narrow_eq_steps (set : CharSet) (level : Nat) :
    set.narrow level = set.steps (min level 2 + 1) :=
  rfl

/-- One more step is taken at the end. -/
theorem steps_succ (set : CharSet) (count : Nat) :
    set.steps (count + 1) = (set.steps count).narrowStep count := by
  rw [steps, List.range_succ, List.foldl_append]
  rfl

/-- The steps that were taken have settled the set. -/
theorem settled_steps {count : Nat} (h : level < count) : (set.steps count).Settled level := by
  induction count with
  | zero => exact absurd h (Nat.not_lt_zero _)
  | succ count ih =>
    rw [steps_succ]
    rcases Nat.lt_succ_iff_lt_or_eq.1 h with hbefore | rfl
    · exact (ih hbefore).mono fun c ↦ mem_of_mem_narrowStep
    · exact settled_narrowStep ..

/-- Steps leave a set as it is that is settled at each of them. -/
theorem steps_of_settled {count : Nat} (h : ∀ level < count, set.Settled level) :
    set.steps count = set := by
  induction count with
  | zero => rfl
  | succ count ih =>
    rw [steps_succ, ih fun level hlevel ↦ h level (Nat.lt_succ_of_lt hlevel)]
    exact h count (Nat.lt_succ_self count)

/-- Steps that were taken change nothing when they are taken again. -/
theorem steps_steps (set : CharSet) (count again : Nat) :
    (set.steps count).steps again = set.steps (max count again) := by
  induction again with
  | zero => rw [Nat.max_zero]; rfl
  | succ again ih =>
    by_cases hle : again + 1 ≤ count
    · rw [Nat.max_eq_left hle]
      exact steps_of_settled fun level hlevel ↦ settled_steps (Nat.lt_of_lt_of_le hlevel hle)
    · have hlt : count ≤ again := by omega
      rw [steps_succ, ih, Nat.max_eq_right hlt, Nat.max_eq_right (by omega), steps_succ]

/-- Narrowing to a level and to another one is narrowing to the higher of the two. -/
theorem narrow_narrow (set : CharSet) (level other : Nat) :
    (set.narrow level).narrow other = set.narrow (max level other) := by
  rw [narrow_eq_steps, narrow_eq_steps, narrow_eq_steps, steps_steps]
  congr 1
  omega

/-- What the levels of narrowing make of a set. Narrowing again is narrowing to the higher level,
and a level beyond the last one counts as the last one. A higher level keeps members of a lower
one, which keeps members of the set, and nothing is left only of the empty set. The last level
keeps the smallest member that the level before it has left. -/
structure IsNarrowingChain (set : CharSet) : Prop where
  again (level other : Nat) : (set.narrow level).narrow other = set.narrow (max level other)
  beyond (level : Nat) : 2 ≤ level → set.narrow level = set.narrow 2
  inside (level other : Nat) : level ≤ other →
    ∀ c ∈ set.narrow other, c ∈ set.narrow level ∧ c ∈ set
  eq_empty_iff (level : Nat) : set.narrow level = empty ↔ set = empty
  smallest (level : Nat) : 2 ≤ level → set ≠ empty → ∃ first ∈ set.narrow 1,
    (∀ c ∈ set.narrow 1, first.toNat ≤ c.toNat) ∧ set.narrow level = single first

/-- The levels of narrowing form a chain. -/
theorem isNarrowingChain (set : CharSet) : IsNarrowingChain set where
  again := set.narrow_narrow
  beyond level hlevel := by
    rw [narrow_eq_steps, narrow_eq_steps, Nat.min_eq_right hlevel, Nat.min_self]
  inside level other hle c hc := by
    refine ⟨?_, mem_of_mem_narrow hc⟩
    rw [← Nat.max_eq_right hle, ← narrow_narrow] at hc
    exact mem_of_mem_narrow hc
  eq_empty_iff level := by
    rw [← isEmpty_iff_eq_empty, ← isEmpty_iff_eq_empty, isEmpty_narrow]
  smallest level hlevel hne := by
    have hsome : (set.narrow 1).isEmpty = false := by
      rw [isEmpty_narrow, ← Bool.not_eq_true, isEmpty_iff_eq_empty]
      exact hne
    obtain ⟨c, hc⟩ := isEmpty_eq_false_iff.1 hsome
    obtain ⟨first, hfirst, hleast, hrestrict⟩ := exists_restrict_eq (Nat.le_refl 2) hc
    refine ⟨first, hfirst, hleast, ?_⟩
    have hsingle : (single first).isEmpty = false :=
      isEmpty_eq_false_iff.2 ⟨first, mem_single.2 ⟨rfl, canHold_of_mem hfirst⟩⟩
    have hstep : (set.narrow 1).narrowStep 2 = single first := by
      rw [narrowStep, hrestrict, hsingle]
      rfl
    rw [narrow_eq_steps, Nat.min_eq_right hlevel, steps_succ]
    exact hstep

/-- Upper-case letters are left where there is nothing simpler. -/
example : (range '@' 'C').narrow 1 = range 'A' 'C' ∧
  (range '@' 'b').narrow 1 = range 'a' 'b' := by
  decide +kernel

end Exemplar.CharSet
