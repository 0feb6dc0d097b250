import Exemplar.CharSet.Builder
import Exemplar.Proofs.CharSet.Members
import Mathlib.Order.Interval.Finset.Nat

/-!
# Equal character sets

Two sets with the same members are equal, because an increasing list of toggles is determined by the
numbers that it holds (`Toggles.eq_of_holds`, `CharSet.ext_of_contains`). The weight of a set counts
its members, so the sets of the least and of the largest weight are the empty and the full one
(`eq_empty_of_weight`, `eq_any_of_weight`), and a set is the union of its ranges
(`foldl_range_eq`).
-/

namespace Exemplar

namespace Toggles

/-- Increasing lists that hold the same numbers are equal. -/
theorem eq_of_holds {toggles others : List Nat} (hsorted : toggles.Pairwise (· < ·))
    (hothers : others.Pairwise (· < ·)) (h : ∀ code, holds toggles code = holds others code) :
    toggles = others := by
  induction toggles generalizing others with
  | nil =>
    cases others with
    | nil => rfl
    | cons other others =>
      -- The first toggle is a number that is held.
      have hfirst := h other
      rw [holds_cons hothers, holds_of_lt (List.pairwise_cons.1 hothers).1] at hfirst
      simp [holds] at hfirst
  | cons toggle toggles ih =>
    have habove := (List.pairwise_cons.1 hsorted).1
    cases others with
    | nil =>
      have hfirst := h toggle
      rw [holds_cons hsorted, holds_of_lt habove] at hfirst
      simp [holds] at hfirst
    | cons other others =>
      have hothersAbove := (List.pairwise_cons.1 hothers).1
      have heq : toggle = other := by
        rcases Nat.lt_trichotomy toggle other with hlt | heq | hlt
        · have hfirst := h toggle
          rw [holds_cons hsorted, holds_of_lt habove, holds, if_pos hlt] at hfirst
          simp at hfirst
        · exact heq
        · have hfirst := h other
          rw [holds_cons hothers, holds_of_lt hothersAbove, holds, if_pos hlt] at hfirst
          simp at hfirst
      subst heq
      refine congrArg (toggle :: ·)
        (ih (List.pairwise_cons.1 hsorted).2 (List.pairwise_cons.1 hothers).2 fun code ↦ ?_)
      have hcode := h code
      rw [holds_cons hsorted, holds_cons hothers] at hcode
      exact Bool.xor_right_inj.1 hcode

/-- The runs of an increasing list of pairs of toggles count the numbers that it holds. -/
theorem total_runs {toggles : List Nat} (hsorted : toggles.Pairwise (· < ·))
    (heven : toggles.length % 2 = 0) {limit : Nat}
    (hlimit : ∀ run ∈ runs toggles, run.2 ≤ limit) :
    Size.total ((runs toggles).map fun (first, stop) ↦ stop - first) =
      ((Finset.range limit).filter fun code ↦ holds toggles code = true).card := by
  fun_induction runs toggles with
  | case1 first stop rest ih =>
    rw [List.pairwise_cons, List.pairwise_cons] at hsorted
    obtain ⟨hfirst, hstop, hrest⟩ := hsorted
    have hlt : first < stop := hfirst stop (by simp)
    obtain ⟨hle, hlimit⟩ := List.forall_mem_cons.1 hlimit
    have ih := ih hrest (by simp only [List.length_cons] at heven; omega) hlimit
    -- The numbers of the first run are below those of the others.
    have hsplit :
        ((Finset.range limit).filter fun code ↦ holds (first :: stop :: rest) code = true) =
        Finset.Ico first stop ∪ (Finset.range limit).filter fun code ↦
          holds rest code = true := by
      ext code
      have hlow : code < stop → holds rest code = false := fun hcode ↦
        holds_of_lt fun toggle htoggle ↦ Nat.lt_trans hcode (hstop toggle htoggle)
      simp only [Finset.mem_filter, Finset.mem_range, Finset.mem_union, Finset.mem_Ico, holds]
      grind
    have hdisjoint : Disjoint (Finset.Ico first stop)
        ((Finset.range limit).filter fun code ↦ holds rest code = true) := by
      refine Finset.disjoint_left.2 fun code hcode hrest ↦ ?_
      rw [Finset.mem_Ico] at hcode
      have hlow := holds_of_lt fun toggle htoggle ↦ Nat.lt_trans hcode.2 (hstop toggle htoggle)
      simp [hlow] at hrest
    rw [hsplit, Finset.card_union_of_disjoint hdisjoint, Nat.card_Ico, ← ih]
    rfl
  | case2 toggles hshort =>
    cases toggles with
    | nil => simp [Size.total, holds]
    | cons first rest =>
      cases rest with
      | nil => simp at heven
      | cons stop rest => exact absurd rfl (hshort first stop rest)

end Toggles

namespace CharSet

/-- Sets that hold the same code points are equal. -/
theorem ext_of_containsCode {set other : CharSet}
    (h : ∀ code, set.containsCode code = other.containsCode code) : set = other := by
  cases set with
  | mk toggles sorted inside =>
    cases other with
    | mk others sorted' inside' =>
      have heq : toggles = others := Toggles.eq_of_holds sorted sorted' h
      subst heq
      rfl

/-- Sets that hold the same characters are equal. -/
theorem ext_of_contains {set other : CharSet} (h : ∀ c, set.contains c = other.contains c) :
    set = other := by
  refine ext_of_containsCode fun code ↦ ?_
  -- A code point that is held is that of a character.
  have himp {first second : CharSet} (h : ∀ c, first.contains c = second.contains c)
      (hcode : first.containsCode code = true) : second.containsCode code = true := by
    have hchar := h (Char.ofNat code)
    rwa [contains, contains, toNat_ofNat_of_containsCode hcode, hcode, eq_comm] at hchar
  exact Bool.eq_iff_iff.2 ⟨himp h, himp fun c ↦ (h c).symm⟩

/-- The ends of a run are in order, and they are members. -/
theorem ends_of_mem_runs {set : CharSet} {run : Nat × Nat} (h : run ∈ set.runs) :
    run.1 < run.2 ∧ set.containsCode run.1 = true ∧ set.containsCode (run.2 - 1) = true := by
  have hlt := Toggles.lt_of_mem_runs set.sorted h
  exact ⟨hlt, containsCode_iff_runs.2 ⟨run, h, by omega, by omega⟩,
    containsCode_iff_runs.2 ⟨run, h, by omega, by omega⟩⟩

/-- The weight of a set is the number of the code points that it holds. -/
theorem weight_eq_card (set : CharSet) :
    set.weight = ((Finset.range 0x10000).filter fun code ↦ set.containsCode code = true).card :=
  Toggles.total_runs set.sorted set.even_length_toggles fun run hrun ↦ by
    have := lt_of_containsCode (ends_of_mem_runs hrun).2.2
    omega

/-- No set has more members than there are code points that it can hold. -/
theorem weight_le (set : CharSet) : set.weight ≤ 0x10000 := by
  rw [weight_eq_card]
  exact (Finset.card_filter_le ..).trans_eq (Finset.card_range _)

/-- A set without weight is empty. -/
theorem eq_empty_of_weight {set : CharSet} (h : set.weight = 0) : set = empty := by
  rw [weight_eq_card, Finset.card_eq_zero] at h
  refine ext_of_containsCode fun code ↦ ?_
  by_contra hne
  have hmem : set.containsCode code = true := Bool.eq_true_of_not_eq_false hne
  have hlt := lt_of_containsCode hmem
  have : code ∈ (Finset.range 0x10000).filter fun code ↦ set.containsCode code = true := by
    simp only [Finset.mem_filter, Finset.mem_range]
    exact ⟨by omega, hmem⟩
  simp [h] at this

/-- A set of full weight has every character that a set can hold. -/
theorem eq_any_of_weight {set : CharSet} (h : set.weight = fullSize) : set = any := by
  have hsubset : (Finset.range 0x10000).filter (fun code ↦ set.containsCode code = true) ⊆
      (Finset.range 0x10000).filter fun code ↦ any.containsCode code = true := by
    intro code hcode
    rw [Finset.mem_filter] at hcode ⊢
    exact ⟨hcode.1, containsCode_any_of_containsCode hcode.2⟩
  have hcard : any.weight ≤ set.weight := h ▸ Nat.le_refl fullSize
  rw [weight_eq_card, weight_eq_card] at hcard
  have heq := Finset.eq_of_subset_of_card_le hsubset hcard
  refine ext_of_containsCode fun code ↦ ?_
  refine Bool.eq_iff_iff.2 ⟨containsCode_any_of_containsCode, fun hcode ↦ ?_⟩
  have hlt := lt_of_containsCode hcode
  have : code ∈ (Finset.range 0x10000).filter fun code ↦ any.containsCode code = true := by
    simp only [Finset.mem_filter, Finset.mem_range]
    exact ⟨by omega, hcode⟩
  rw [← heq, Finset.mem_filter] at this
  exact this.2

/-- The complement of the complement of a set is the set. -/
@[simp] theorem negate_negate (set : CharSet) : set.negate.negate = set := by
  refine ext_of_contains fun c ↦ ?_
  have hinside : set.contains c = true → canHold c = true := by
    rw [← contains_any]
    exact containsCode_any_of_containsCode
  rw [contains_negate, contains_negate]
  cases hset : set.contains c with
  | false => simp
  | true => simp [hinside hset]

/-- A set has no other cases when case counts. -/
@[simp] theorem foldCase_none (set : CharSet) : set.foldCase .none = set := by
  refine ext_of_contains fun c ↦ ?_
  show (set ∪ empty).contains c = set.contains c
  simp

/-- Two neighbours make a range. -/
theorem union_single_union_single (set : CharSet) {first last : Char}
    (h : last.toNat = first.toNat + 1) :
    (set ∪ range first first) ∪ range last last = set ∪ range first last := by
  refine ext_of_contains fun c ↦ ?_
  simp only [contains_union, contains_range, h]
  grind

/-- The ends of a range are in order, and a set can hold them. -/
theorem of_mem_ranges {set : CharSet} {first last : Char} (h : (first, last) ∈ set.ranges) :
    first.toNat ≤ last.toNat ∧ canHold first = true ∧ canHold last = true := by
  obtain ⟨run, hrun, heq⟩ := List.mem_map.1 h
  cases heq
  obtain ⟨hlt, hfirst, hlast⟩ := ends_of_mem_runs hrun
  have hbelow := lt_of_containsCode hfirst
  have hbelow' := lt_of_containsCode hlast
  simp only [canHold, lastCode, toNat_ofNat_of_containsCode hfirst,
    toNat_ofNat_of_containsCode hlast, decide_eq_true_eq]
  omega

/-- A union of ranges has the members of each. -/
theorem contains_foldl_range (ranges : List (Char × Char)) (set : CharSet) (c : Char) :
    (ranges.foldl (fun set ends ↦ set ∪ range ends.1 ends.2) set).contains c =
      (set.contains c || ranges.any fun ends ↦ (range ends.1 ends.2).contains c) := by
  induction ranges generalizing set with
  | nil => simp
  | cons ends ranges ih => rw [List.foldl_cons, ih, contains_union, List.any_cons, Bool.or_assoc]

/-- A set is the union of its ranges. -/
theorem foldl_range_eq (set : CharSet) :
    set.ranges.foldl (fun set ends ↦ set ∪ range ends.1 ends.2) empty = set := by
  refine ext_of_contains fun c ↦ ?_
  rw [contains_foldl_range, contains_empty, Bool.false_or, ranges, List.any_map]
  have hrange (run : Nat × Nat) (hrun : run ∈ set.runs) :
      (range (Char.ofNat run.1) (Char.ofNat (run.2 - 1))).contains c = true ↔
        (run.1 ≤ c.toNat ∧ c.toNat < run.2) ∧ canHold c = true := by
    obtain ⟨hlt, hfirst, hlast⟩ := ends_of_mem_runs hrun
    rw [contains_range, toNat_ofNat_of_containsCode hfirst, toNat_ofNat_of_containsCode hlast]
    simp only [Bool.and_eq_true, decide_eq_true_eq]
    exact and_congr_left' (by omega)
  refine Bool.eq_iff_iff.2 ⟨fun h ↦ ?_, fun h ↦ ?_⟩
  · obtain ⟨run, hrun, hmem⟩ := List.any_eq_true.1 h
    exact containsCode_iff_runs.2 ⟨run, hrun, ((hrange run hrun).1 hmem).1⟩
  · obtain ⟨run, hrun, hmem⟩ := containsCode_iff_runs.1 h
    have hinside : any.contains c = true := containsCode_any_of_containsCode h
    exact List.any_eq_true.2 ⟨run, hrun,
      (hrange run hrun).2 ⟨hmem, contains_any c ▸ hinside⟩⟩

end CharSet

end Exemplar
