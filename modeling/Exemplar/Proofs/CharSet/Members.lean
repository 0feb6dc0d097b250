import Exemplar.CharSet.Members

/-!
# Runs and members

The toggles of a set come in pairs, because nothing beyond U+FFFF is a member, so a code point
belongs to a set exactly when it lies in one of the runs (`containsCode_iff_runs`). The search for
a number skips whole runs and finds the code point at that place in the list of all
(`nthCode?_eq_getElem?`). So every number below the weight finds a member and every member has such
a number: a sample of a set that is not empty is a member (`exists_sample`), and every member is
the sample for some seed (`exists_sample_eq_of_mem`).
-/

namespace Exemplar

namespace Toggles

/-- A number that no toggle exceeds is a member when the number of toggles is odd. -/
theorem holds_of_le {toggles : List Nat} {code : Nat}
    (h : ∀ toggle ∈ toggles, toggle ≤ code) :
    holds toggles code = decide (toggles.length % 2 = 1) := by
  induction toggles with
  | nil => rfl
  | cons toggle rest ih =>
    rw [holds, if_neg (Nat.not_lt.2 (h toggle (by simp))),
      ih fun other hother ↦ h other (List.mem_cons_of_mem _ hother), List.length_cons]
    rcases Nat.mod_two_eq_zero_or_one rest.length with hrest | hrest
    · simp [hrest, show (rest.length + 1) % 2 = 1 by omega]
    · simp [hrest, show (rest.length + 1) % 2 = 0 by omega]

/-- In an increasing list of pairs of toggles, the members are the numbers within the runs. -/
theorem holds_iff_runs {toggles : List Nat} (hsorted : toggles.Pairwise (· < ·))
    (heven : toggles.length % 2 = 0) (code : Nat) :
    holds toggles code = true ↔ ∃ run ∈ runs toggles, run.1 ≤ code ∧ code < run.2 := by
  fun_induction runs toggles with
  | case1 first stop rest ih =>
    rw [List.pairwise_cons, List.pairwise_cons] at hsorted
    obtain ⟨hfirst, hstop, hrest⟩ := hsorted
    have hlt : first < stop := hfirst stop (by simp)
    have ih := ih hrest (by simp only [List.length_cons] at heven; omega)
    rw [holds, holds]
    constructor
    · intro h
      by_cases hbelow : code < first
      · simp [hbelow] at h
      · by_cases hin : code < stop
        · exact ⟨(first, stop), by simp, Nat.not_lt.1 hbelow, hin⟩
        · obtain ⟨run, hrun, hmem⟩ := ih.1 (by simpa [hbelow, hin] using h)
          exact ⟨run, by simp [hrun], hmem⟩
    · rintro ⟨run, hrun, hmem⟩
      rcases List.mem_cons.1 hrun with rfl | hrun
      · simp [Nat.not_lt.2 hmem.1, hmem.2]
      · have hlater := ih.2 ⟨run, hrun, hmem⟩
        have hge : ¬ code < stop := by
          intro hlt
          rw [holds_of_lt fun toggle htoggle ↦ Nat.lt_trans hlt (hstop toggle htoggle)] at hlater
          cases hlater
        simp [show ¬ code < first by omega, hge, hlater]
  | case2 toggles hshort =>
    cases toggles with
    | nil => simp [holds]
    | cons first rest =>
      cases rest with
      | nil => simp at heven
      | cons stop rest => exact absurd rfl (hshort first stop rest)

/-- The first number of a run is below the one after its last. -/
theorem lt_of_mem_runs {toggles : List Nat} (hsorted : toggles.Pairwise (· < ·))
    {run : Nat × Nat} (hrun : run ∈ runs toggles) : run.1 < run.2 := by
  fun_induction runs toggles with
  | case1 first stop rest ih =>
    rw [List.pairwise_cons, List.pairwise_cons] at hsorted
    rcases List.mem_cons.1 hrun with rfl | hrun
    · exact hsorted.1 stop (by simp)
    · exact ih hsorted.2.2 hrun
  | case2 => simp at hrun

end Toggles

namespace CharSet

/-- The toggles of a set come in pairs. -/
theorem even_length_toggles (set : CharSet) : set.toggles.length % 2 = 0 := by
  -- A number beyond the universe and beyond every toggle is no member.
  let code := Size.total set.toggles + 0x10000
  have hle : ∀ toggle ∈ set.toggles, toggle ≤ code := by
    intro toggle htoggle
    have : ∀ numbers : List Nat, toggle ∈ numbers → toggle ≤ Size.total numbers := by
      intro numbers hmem
      induction numbers with
      | nil => cases hmem
      | cons number numbers ih =>
        simp only [Size.total, List.foldr_cons] at ih ⊢
        rcases List.mem_cons.1 hmem with rfl | hmem
        · omega
        · have := ih hmem
          omega
    have := this _ htoggle
    omega
  have houtside : ¬ Toggles.holds set.toggles code = true := by
    intro h
    have hinside := set.inside code h
    rw [Toggles.holds_of_le (by simp; omega)] at hinside
    simp at hinside
  rw [Toggles.holds_of_le hle] at houtside
  simp only [decide_eq_true_eq] at houtside
  omega

/-- A code point belongs to a set when it lies in one of the runs. -/
theorem containsCode_iff_runs {set : CharSet} {code : Nat} :
    set.containsCode code = true ↔ ∃ run ∈ set.runs, run.1 ≤ code ∧ code < run.2 :=
  Toggles.holds_iff_runs set.sorted set.even_length_toggles code

/-- A member of a set is a code point below U+10000 that is no surrogate. -/
theorem lt_of_containsCode {set : CharSet} {code : Nat} (h : set.containsCode code = true) :
    code < 0xD800 ∨ 0xE000 ≤ code ∧ code < 0x10000 := by
  have := set.inside code h
  simp only [Toggles.holds] at this
  grind

/-- The character of a member's code point has that code point. -/
theorem toNat_ofNat_of_containsCode {set : CharSet} {code : Nat}
    (h : set.containsCode code = true) :
    (Char.ofNat code).toNat = code := by
  have hcode := lt_of_containsCode h
  have hvalid : code.isValidChar := by
    rcases hcode with hcode | hcode
    · exact .inl hcode
    · exact .inr ⟨by omega, by omega⟩
  rw [Char.ofNat, dif_pos hvalid]
  rfl

/-- The character of a code point that a set holds is a member. -/
theorem ofNat_mem {set : CharSet} {code : Nat} (h : set.containsCode code = true) :
    Char.ofNat code ∈ set := by
  show set.containsCode (Char.ofNat code).toNat = true
  rwa [toNat_ofNat_of_containsCode h]

/-- The code points in the runs, one run after the other. -/
def codes (runs : List (Nat × Nat)) : List Nat :=
  runs.flatMap fun run ↦ List.range' run.1 (run.2 - run.1)

/-- There are as many code points as the runs are long. -/
theorem length_codes (runs : List (Nat × Nat)) :
    (codes runs).length = Size.total (runs.map fun (first, stop) ↦ stop - first) := by
  induction runs with
  | nil => rfl
  | cons run runs ih =>
    rw [codes, List.flatMap_cons, List.length_append, List.length_range', ← codes, ih]
    rfl

/-- A code point is listed when it lies in one of the runs. -/
theorem mem_codes {runs : List (Nat × Nat)} {code : Nat} :
    code ∈ codes runs ↔ ∃ run ∈ runs, run.1 ≤ code ∧ code < run.2 := by
  rw [codes, List.mem_flatMap]
  refine exists_congr fun run ↦ and_congr_right fun _ ↦ ?_
  rw [List.mem_range'_1]
  omega

/-- The code points of a set are those that it holds. -/
theorem mem_codes_runs {set : CharSet} {code : Nat} :
    code ∈ codes set.runs ↔ set.containsCode code = true :=
  mem_codes.trans containsCode_iff_runs.symm

/-- The search for a number finds the code point at that place, and none behind the last one. -/
theorem nthCode?_eq_getElem? (runs : List (Nat × Nat)) (index : Nat) :
    nthCode? runs index = (codes runs)[index]? := by
  fun_induction nthCode? runs index with
  | case1 => rfl
  | case2 first stop rest index hlt =>
    rw [codes, List.flatMap_cons, List.getElem?_append_left (by rwa [List.length_range']),
      List.getElem?_range' hlt, Nat.one_mul]
  | case3 first stop rest index hge ih =>
    -- The first run is skipped as a whole.
    rw [ih, codes, codes, List.flatMap_cons,
      List.getElem?_append_right (by rw [List.length_range']; exact Nat.not_lt.1 hge),
      List.length_range']

/-- The character that a number finds is a member. -/
theorem mem_of_nth? {set : CharSet} {index : Nat} {c : Char} (h : set.nth? index = some c) :
    c ∈ set := by
  obtain ⟨code, hcode, rfl⟩ := Option.map_eq_some_iff.1 h
  rw [nthCode?_eq_getElem?] at hcode
  exact ofNat_mem (mem_codes_runs.1 (List.mem_of_getElem? hcode))

/-- Every number below the weight finds a member. -/
theorem exists_nth? {set : CharSet} {index : Nat} (h : index < set.weight) :
    ∃ c, set.nth? index = some c := by
  rw [nth?, nthCode?_eq_getElem?, List.getElem?_eq_getElem (by rwa [length_codes])]
  exact ⟨_, rfl⟩

/-- Every member has a number below the weight. -/
theorem exists_nth?_of_mem {set : CharSet} {c : Char} (h : c ∈ set) :
    ∃ index < set.weight, set.nth? index = some c := by
  obtain ⟨index, hindex, hcode⟩ := List.getElem_of_mem (mem_codes_runs.2 h)
  refine ⟨index, by rwa [length_codes] at hindex, ?_⟩
  rw [nth?, nthCode?_eq_getElem?, List.getElem?_eq_getElem hindex, hcode, Option.map_some,
    Char.ofNat_toNat]

/-- A sample of a set is a member. -/
theorem mem_of_sample {set : CharSet} {seed : Int} {c : Char} (h : set.sample seed = .ok c) :
    c ∈ set := by
  unfold sample at h
  split at h
  · cases h
    exact mem_of_nth? ‹_›
  · cases h

/-- A set that is not empty has a sample for every seed. -/
theorem exists_sample {set : CharSet} (h : set.isEmpty = false) (seed : Int) :
    ∃ c, set.sample seed = .ok c := by
  have hpos : 0 < set.weight := by
    simp only [isEmpty, beq_eq_false_iff_ne] at h
    omega
  obtain ⟨c, hc⟩ := exists_nth? (Nat.mod_lt seed.natAbs hpos)
  exact ⟨c, by simp [sample, hc]⟩

/-- Every member is the sample for its number. -/
theorem exists_sample_eq_of_mem {set : CharSet} {c : Char} (h : c ∈ set) :
    ∃ index < set.weight, set.sample (index : Int) = .ok c := by
  obtain ⟨index, hindex, hnth⟩ := exists_nth?_of_mem h
  refine ⟨index, hindex, ?_⟩
  rw [sample, Int.natAbs_natCast, Nat.mod_eq_of_lt hindex, hnth]

/-- A set has members unless it is empty. -/
theorem isEmpty_eq_false_iff {set : CharSet} : set.isEmpty = false ↔ ∃ c, c ∈ set := by
  constructor
  · intro h
    obtain ⟨c, hsample⟩ := exists_sample h 0
    exact ⟨c, mem_of_sample hsample⟩
  · rintro ⟨c, hc⟩
    obtain ⟨index, hindex, -⟩ := exists_nth?_of_mem hc
    rw [isEmpty, beq_eq_false_iff_ne]
    exact Nat.ne_zero_of_lt hindex

/-- The empty set has no sample. -/
theorem sample_of_isEmpty {set : CharSet} (h : set.isEmpty = true) (seed : Int) :
    set.sample seed = .error .emptyCharSet := by
  have hnone : ∀ index, set.nth? index = none := by
    intro index
    cases hnth : set.nth? index with
    | none => rfl
    | some c =>
      have hsome := isEmpty_eq_false_iff.2 ⟨c, mem_of_nth? hnth⟩
      rw [h] at hsome
      cases hsome
  rw [sample, hnone]

/-- The members of a span of code points are those that a set can hold. -/
theorem containsCode_between (first stop code : Nat) :
    (between first stop).containsCode code =
      (decide (first ≤ code) && decide (code < stop) && any.containsCode code) := by
  unfold between
  split
  · rename_i hlt
    have hsorted : [first, stop].Pairwise (· < ·) := by simpa using hlt
    have h := Toggles.holds_combine (· && ·) false false hsorted any.sorted code
    simp only [Bool.and_self, Bool.false_bne] at h
    show Toggles.holds (Toggles.combine (· && ·) false false [first, stop] any.toggles) code = _
    rw [h]
    congr 1
    simp only [Toggles.holds]
    grind
  · show false = _
    grind

/-- The members of a range of characters are those that a set can hold. -/
@[simp] theorem contains_range (first last c : Char) :
    (range first last).contains c =
      (decide (first.toNat ≤ c.toNat) && decide (c.toNat ≤ last.toNat) && canHold c) := by
  rw [← contains_any, contains, range, containsCode_between, contains]
  simp only [Nat.lt_succ_iff]

/-- The only member of a set of one character is that character. -/
theorem eq_of_mem_single {c other : Char} (h : other ∈ single c) : other = c := by
  have h : (range c c).contains other = true := h
  simp only [contains_range, Bool.and_eq_true, decide_eq_true_eq] at h
  exact Char.toNat_inj.1 (Nat.le_antisymm h.1.2 h.1.1)

end CharSet

end Exemplar
