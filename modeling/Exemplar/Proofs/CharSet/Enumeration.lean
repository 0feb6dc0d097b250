import Exemplar.Proofs.CharSet.Equality

/-!
# The numbering of members

The runs of a set follow one another, so the code points that they hold, run by run, are in
increasing order (`codes_sorted`). Listing, numbering and sampling agree on this order: the list of
a set has its members in increasing order, a number below the weight is a place in the list, and a
seed picks the member whose number is its size modulo the weight (`enumerated`).
-/

namespace Exemplar

namespace Toggles

/-- A run starts at a toggle. -/
theorem fst_mem_of_mem_runs {toggles : List Nat} {run : Nat × Nat} (h : run ∈ runs toggles) :
    run.1 ∈ toggles := by
  fun_induction runs toggles with
  | case1 first stop rest ih =>
    rcases List.mem_cons.1 h with rfl | h
    · exact List.mem_cons_self
    · exact List.mem_cons_of_mem _ (List.mem_cons_of_mem _ (ih h))
  | case2 => cases h

/-- A run of an increasing list ends before the next one starts. -/
theorem runs_sorted {toggles : List Nat} (hsorted : toggles.Pairwise (· < ·)) :
    (runs toggles).Pairwise fun run next ↦ run.2 < next.1 := by
  fun_induction runs toggles with
  | case1 first stop rest ih =>
    rw [List.pairwise_cons, List.pairwise_cons] at hsorted
    obtain ⟨-, hstop, hrest⟩ := hsorted
    exact List.pairwise_cons.2 ⟨fun run hrun ↦
      hstop run.1 (fst_mem_of_mem_runs hrun), ih hrest⟩
  | case2 => exact .nil

end Toggles

namespace CharSet

/-- The code points of runs that follow one another are in increasing order. -/
theorem codes_sorted {runs : List (Nat × Nat)}
    (h : runs.Pairwise fun run next ↦ run.2 < next.1) :
    (codes runs).Pairwise (· < ·) := by
  refine List.pairwise_flatMap.2 ⟨fun run _ ↦ List.pairwise_lt_range',
    h.imp fun hbelow ↦ ?_⟩
  intro code hcode next hnext
  rw [List.mem_range'_1] at hcode hnext
  omega

/-- The list of a set has the characters of the code points in its runs. -/
theorem toList_eq_map_codes (set : CharSet) : set.toList = (codes set.runs).map Char.ofNat := by
  rw [codes, List.map_flatMap]
  rfl

/-- The list of a set has just its members. -/
theorem mem_toList {set : CharSet} {c : Char} : c ∈ set.toList ↔ c ∈ set := by
  rw [toList_eq_map_codes, List.mem_map]
  constructor
  · rintro ⟨code, hcode, rfl⟩
    exact ofNat_mem (mem_codes_runs.1 hcode)
  · exact fun h ↦ ⟨c.toNat, mem_codes_runs.2 h, Char.ofNat_toNat c⟩

/-- The list of a set is in increasing order. -/
theorem toList_sorted (set : CharSet) :
    set.toList.Pairwise fun c next ↦ c.toNat < next.toNat := by
  rw [toList_eq_map_codes, List.pairwise_map]
  refine (codes_sorted (Toggles.runs_sorted set.sorted)).imp_of_mem fun hcode hnext hlt ↦ ?_
  rwa [toNat_ofNat_of_containsCode (mem_codes_runs.1 hcode),
    toNat_ofNat_of_containsCode (mem_codes_runs.1 hnext)]

/-- The list of a set is as long as the weight says. -/
theorem length_toList (set : CharSet) : set.toList.length = set.weight := by
  rw [toList_eq_map_codes, List.length_map, length_codes]
  rfl

/-- The member with a number is the one at that place in the list. -/
theorem nth?_eq_getElem? (set : CharSet) (index : Nat) : set.nth? index = set.toList[index]? := by
  rw [nth?, nthCode?_eq_getElem?, toList_eq_map_codes, List.getElem?_map]

/-- A seed picks the member whose number is its size modulo the weight. -/
theorem sample_eq_of_ne_empty {set : CharSet} (h : set ≠ empty) (seed : Int) :
    ∃ c ∈ set, set.nth? (seed.natAbs % set.weight) = some c ∧ set.sample seed = .ok c := by
  have hpos : 0 < set.weight := Nat.pos_of_ne_zero fun hzero ↦ h (eq_empty_of_weight hzero)
  obtain ⟨c, hnth⟩ := exists_nth? (Nat.mod_lt seed.natAbs hpos)
  exact ⟨c, mem_of_nth? hnth, hnth, by rw [sample, hnth]⟩

/-- How the members of a set are listed, numbered and sampled. Just the members are listed, in
increasing order, so none of them twice, and as many as the weight says. The numbers below the
weight are the places in the list, and no other number has a member. Sampling fails just for the
set without members. A sample of any other set is the member whose number is the size of the seed
modulo the weight, and every member is the sample for some seed of 64 bits. -/
structure Enumerated (set : CharSet) : Prop where
  sorted : set.toList.Pairwise fun c next ↦ c.toNat < next.toNat
  mem_iff (c : Char) : c ∈ set.toList ↔ c ∈ set
  length : set.toList.length = set.weight
  nth_of_lt (index : Nat) (h : index < set.toList.length) : set.nth? index = some set.toList[index]
  nth_of_le (index : Nat) (h : set.weight ≤ index) : set.nth? index = none
  sample_error (seed : Int) : set.sample seed = .error .emptyCharSet ↔ set = empty
  sample_ok (h : set ≠ empty) (seed : Int) :
    ∃ c ∈ set, set.nth? (seed.natAbs % set.weight) = some c ∧ set.sample seed = .ok c
  exists_seed (c : Char) (h : c ∈ set) :
    ∃ seed : Int, -2 ^ 63 ≤ seed ∧ seed < 2 ^ 63 ∧ set.sample seed = .ok c

/-- Listing, numbering and sampling agree on the members of every set and on their order. -/
theorem enumerated (set : CharSet) : Enumerated set where
  sorted := set.toList_sorted
  mem_iff _ := mem_toList
  length := set.length_toList
  nth_of_lt index h := by rw [nth?_eq_getElem?, List.getElem?_eq_getElem h]
  nth_of_le index h := by
    rw [nth?_eq_getElem?, List.getElem?_eq_none (by rwa [set.length_toList])]
  sample_error seed := by
    constructor
    · intro herror
      by_contra hne
      obtain ⟨c, -, -, hok⟩ := sample_eq_of_ne_empty hne seed
      rw [hok] at herror
      cases herror
    · rintro rfl
      exact sample_of_isEmpty rfl seed
  sample_ok h seed := sample_eq_of_ne_empty h seed
  exists_seed c h := by
    obtain ⟨index, hindex, hsample⟩ := exists_sample_eq_of_mem h
    have hweight := set.weight_le
    exact ⟨index, by omega, by omega, hsample⟩

/-- The numbers pass over the surrogates. -/
example : any.nth? 0xD7FF = some '\uD7FF' ∧ any.nth? 0xD800 = some '\uE000' := by decide

end CharSet

end Exemplar
