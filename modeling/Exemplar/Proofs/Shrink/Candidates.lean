import Exemplar.Proofs.CharSet.Narrow
import Exemplar.Proofs.Pattern.Strings
import Exemplar.Shrink.Candidates
import Mathlib.Algebra.Group.Nat.Defs

/-!
# The candidates for a smaller string

The length targets have a closed form: target number `k` is `2 ^ k * (m + 1) - 1` for the least
length `m` (`targets_eq`). The main statement, `candidates_isCandidateStream`, says what the whole
stream is: strings that are shorter than the failing one, in the order of their targets, and then
strings from narrowed sets that are no longer, in the order of their levels. All of them are
strings of the pattern.
-/

namespace Exemplar

namespace Candidate

/-! ## Length targets -/

/-- The number of length targets below `limit` that begin with `target`. -/
def targetCount (limit target : Nat) : Nat :=
  if target < limit then (limit / (target + 1)).log2 + 1 else 0

/-- Doubling the first target leaves out one target. -/
theorem targetCount_succ {limit target : Nat} (h : target < limit) :
    targetCount limit target = targetCount limit (2 * target + 1) + 1 := by
  have hdiv : limit / (2 * target + 1 + 1) = limit / (target + 1) / 2 := by
    rw [Nat.div_div_eq_div_mul]
    congr 1
    omega
  unfold targetCount
  rw [if_pos h]
  split
  · rename_i hdouble
    have htwo : 2 ≤ limit / (target + 1) := (Nat.le_div_iff_mul_le (by omega)).2 (by omega)
    rw [hdiv, Nat.log2_def (limit / (target + 1)), if_pos htwo]
  · rename_i hdouble
    have htwo : limit / (target + 1) < 2 := Nat.div_lt_of_lt_mul (by omega)
    rw [Nat.log2_def, if_neg (by omega)]

/-- The length targets grow like powers of two. -/
theorem targets_eq (limit target : Nat) :
    targets limit target =
      (List.range (targetCount limit target)).map fun k ↦ 2 ^ k * (target + 1) - 1 := by
  fun_induction targets limit target with
  | case1 target h ih =>
    rw [ih, targetCount_succ h, List.range_succ_eq_map, List.map_cons, List.map_map]
    congr 1
    · omega
    · refine List.map_congr_left fun k _ ↦ ?_
      show 2 ^ k * (2 * target + 1 + 1) - 1 = 2 ^ (k + 1) * (target + 1) - 1
      have hdouble : 2 * target + 1 + 1 = 2 * (target + 1) := by omega
      rw [Nat.pow_succ, Nat.mul_assoc, hdouble]
  | case2 target h =>
    rw [targetCount, if_neg h]
    rfl

/-- Every length target is below the limit. -/
theorem lt_of_mem_targets {limit first target : Nat} (h : target ∈ targets limit first) :
    target < limit := by
  fun_induction targets limit first with
  | case1 first hlt ih =>
    rcases List.mem_cons.1 h with rfl | h
    · exact hlt
    · exact ih h
  | case2 first hge => cases h

/-! ## Strings for length targets -/

section OfTargets

variable {attempt : Nat → Option String} {limit : Nat}

/-- Candidates come in the order of their targets, some of which may give none. -/
theorem map_origin_ofTargets (last : Option String) (targets : List Nat) :
    ((ofTargets attempt limit last targets).map (·.origin)).Sublist
      (targets.map CandidateOrigin.length) := by
  fun_induction ofTargets attempt limit last targets with
  | case1 => exact .slnil
  | case2 last target targets value hvalue h ih => exact ih.cons_cons _
  | case3 last target targets value hvalue h ih => exact ih.cons _
  | case4 last target targets hnone ih => exact ih.cons _

/-- A candidate is shorter than the limit, and it is the string for its target. -/
theorem attempt_of_mem_ofTargets {last : Option String} {targets : List Nat} {candidate : Candidate}
    (h : candidate ∈ ofTargets attempt limit last targets) :
    candidate.value.length < limit ∧
      ∃ target, candidate.origin = .length target ∧ attempt target = some candidate.value := by
  fun_induction ofTargets attempt limit last targets with
  | case1 => cases h
  | case2 last target targets value hvalue hkeep ih =>
    rcases List.mem_cons.1 h with rfl | h
    · exact ⟨hkeep.1, target, rfl, hvalue⟩
    · exact ih h
  | case3 last target targets value hvalue hskip ih => exact ih h
  | case4 last target targets hnone ih => exact ih h

/-- A candidate differs from the one before it. -/
theorem isChain_ofTargets (last : Option String) (targets : List Nat) :
    (last.toList ++ (ofTargets attempt limit last targets).map (·.value)).IsChain (· ≠ ·) := by
  fun_induction ofTargets attempt limit last targets with
  | case1 last => cases last <;> simp
  | case2 last target targets value hvalue hkeep ih =>
    cases last with
    | none => exact ih
    | some last => exact List.isChain_cons_cons.2 ⟨fun heq ↦ hkeep.2 (congrArg some heq), ih⟩
  | case3 last target targets value hvalue hskip ih => exact ih
  | case4 last target targets hnone ih => exact ih

/-- A string for a target that is shorter than the limit is among the candidates, or it was the last
one before them. -/
theorem mem_ofTargets {last : Option String} {targets : List Nat} {target : Nat} {value : String}
    (htarget : target ∈ targets) (hvalue : attempt target = some value)
    (hlength : value.length < limit) :
    last = some value ∨ value ∈ (ofTargets attempt limit last targets).map (·.value) := by
  fun_induction ofTargets attempt limit last targets with
  | case1 => cases htarget
  | case2 last first targets found hfound hkeep ih =>
    rcases List.mem_cons.1 htarget with rfl | htarget
    · rw [hvalue] at hfound
      cases hfound
      exact .inr (by simp)
    · rcases ih htarget with heq | hmem
      · cases heq
        exact .inr (by simp)
      · exact .inr (List.mem_cons_of_mem _ hmem)
  | case3 last first targets found hfound hskip ih =>
    rcases List.mem_cons.1 htarget with rfl | htarget
    · rw [hvalue] at hfound
      cases hfound
      exact .inl (by simpa [hlength] using hskip)
    · exact ih htarget
  | case4 last first targets hnone ih =>
    rcases List.mem_cons.1 htarget with rfl | htarget
    · rw [hvalue] at hnone
      cases hnone
    · exact ih htarget

end OfTargets

variable {σ : Type} [RandomSource σ]

/-- The candidates with smaller length targets come in the order of their targets. -/
theorem map_origin_byLength (root : Regex) (source : σ) (failing : String) :
    ((byLength root source failing).map (·.origin)).Sublist
      ((List.range (targetCount failing.length root.minLength)).map
        fun k ↦ .length (2 ^ k * (root.minLength + 1) - 1)) := by
  have htargets : (targets failing.length root.minLength).map CandidateOrigin.length =
      (List.range (targetCount failing.length root.minLength)).map
        fun k ↦ .length (2 ^ k * (root.minLength + 1) - 1) := by
    rw [targets_eq, List.map_map]
    rfl
  rw [← htargets]
  exact map_origin_ofTargets none _

/-! ## Strings from narrowed sets -/

/-- A candidate from narrowed sets is another string that is no longer. -/
theorem of_atLevel?_eq_some {root : Regex} {source : σ} {failing : String} {level : Nat}
    {candidate : Candidate} (h : atLevel? root source failing level = some candidate) :
    candidate.origin = .narrowed level ∧ candidate.value ≠ failing ∧
      candidate.value.length ≤ failing.length ∧
      ∃ next, (root.mapSets (·.narrow level)).generate source (some failing.length) =
        .ok (candidate.value, next) := by
  unfold atLevel? at h
  simp only at h
  split at h
  · cases h
  · split at h
    · rename_i value next hgenerate
      split at h
      · rename_i hvalue
        cases h
        exact ⟨rfl, hvalue.1, hvalue.2, next, hgenerate⟩
      · cases h
    · cases h

/-- Candidates from narrowed sets come in the order of their levels. -/
theorem map_origin_byLevel (root : Regex) (source : σ) (failing : String) (level : Nat) :
    ((byLevel root source failing level).map (·.origin)).Sublist
      (((List.range CharSet.levelCount).drop level).map CandidateOrigin.narrowed) := by
  unfold byLevel
  generalize (List.range CharSet.levelCount).drop level = levels
  induction levels with
  | nil => exact .slnil
  | cons level levels ih =>
    cases hcandidate : atLevel? root source failing level with
    | none =>
      rw [List.filterMap_cons_none hcandidate]
      exact ih.cons _
    | some candidate =>
      rw [List.filterMap_cons_some hcandidate, List.map_cons,
        (of_atLevel?_eq_some hcandidate).1]
      exact ih.cons_cons _

/-- A candidate from narrowed sets comes from some level. -/
theorem exists_level_of_mem_byLevel {root : Regex} {source : σ} {failing : String} {first : Nat}
    {candidate : Candidate} (h : candidate ∈ byLevel root source failing first) :
    ∃ level, first ≤ level ∧ level < CharSet.levelCount ∧
      atLevel? root source failing level = some candidate := by
  obtain ⟨level, hlevel, hcandidate⟩ := List.mem_filterMap.1 h
  obtain ⟨index, hindex, rfl⟩ := List.mem_drop_iff_getElem.1 hlevel
  refine ⟨_, ?_, ?_, hcandidate⟩
  · rw [List.getElem_range]
    omega
  · rw [List.getElem_range]
    simpa [List.length_range, Nat.add_comm] using hindex

end Candidate

namespace Regex

open Candidate

variable {σ : Type} [RandomSource σ] [RandomSource.Lawful σ]

/-- Every candidate is a string of the tree. -/
theorem emits_of_mem_candidates {root : Regex} (h : root.WellFormed) {source : σ}
    {failing : String} {level : Nat} {candidate : Candidate}
    (hmem : candidate ∈ root.candidates source failing level) :
    ∃ after, root.Emits [] candidate.value.toList after := by
  rcases List.mem_append.1 hmem with hmem | hmem
  · obtain ⟨-, target, -, hattempt⟩ := attempt_of_mem_ofTargets hmem
    cases hgenerate : root.generate source (some target) with
    | error error => simp [hgenerate, Except.map, Except.toOption] at hattempt
    | ok outcome =>
      obtain ⟨value, next⟩ := outcome
      obtain rfl : value = candidate.value := by
        simpa [hgenerate, Except.map, Except.toOption] using hattempt
      obtain ⟨after, hemits⟩ := emits_of_generate (h.towards (some target)) hgenerate
      exact ⟨after, emits_towards_le h (some target) _ _ _ hemits⟩
  · obtain ⟨level, -, -, hcandidate⟩ := exists_level_of_mem_byLevel hmem
    obtain ⟨-, -, -, next, hgenerate⟩ := of_atLevel?_eq_some hcandidate
    -- Narrowing only leaves members out, so a string of the narrowed tree is one of the tree.
    have hnarrowed := h.mapSets (·.narrow level)
    obtain ⟨after, hemits⟩ := emits_of_generate (hnarrowed.towards _) hgenerate
    have hsubset (members : CharSet) (c : Char) : c ∈ members.narrow level → c ∈ members :=
      CharSet.mem_of_mem_narrow
    refine ⟨after, emits_mapSets_le hsubset root _ _ _ ?_⟩
    exact emits_towards_le hnarrowed _ _ _ _ hemits

end Regex

namespace Pattern

open Candidate

/-- What the two parts of a candidate stream are: strings that are shorter than the failing one,
and strings from narrowed sets that are no longer.

The shorter strings come in the order of their targets, which are `2 ^ k * (m + 1) - 1` for the
least length `m` and below the failing length. There are no more of them than targets, and none for
a failing string of the least length. No string is repeated right away, and no shorter string is
left out. The strings from narrowed sets come in the order of their levels, and they differ from
the failing string. All of them are strings of the pattern. -/
structure IsCandidateStream (pattern : Pattern) (seed : Int) (failing : String)
    (shorter narrowed : List Candidate) : Prop where
  targets : (shorter.map (·.origin)).Sublist
    ((List.range (targetCount failing.length pattern.minLength)).map
      fun k ↦ .length (2 ^ k * (pattern.minLength + 1) - 1))
  target_lt : ∀ k < targetCount failing.length pattern.minLength,
    2 ^ k * (pattern.minLength + 1) - 1 < failing.length
  length_shorter : pattern.minLength < failing.length →
    shorter.length ≤ (failing.length / (pattern.minLength + 1)).log2 + 1
  shorter_eq_nil : failing.length ≤ pattern.minLength → shorter = []
  value_lt : ∀ candidate ∈ shorter, candidate.value.length < failing.length
  changes : (shorter.map (·.value)).IsChain (· ≠ ·)
  complete : ∀ k < targetCount failing.length pattern.minLength, ∀ value,
    pattern.generate seed (some (2 ^ k * (pattern.minLength + 1) - 1)) = .ok value →
      value.length < failing.length → value ∈ shorter.map (·.value)
  levels : (narrowed.map (·.origin)).Sublist ((List.range 3).map .narrowed)
  value_le : ∀ candidate ∈ narrowed,
    candidate.value ≠ failing ∧ candidate.value.length ≤ failing.length
  emits : ∀ candidate ∈ shorter ++ narrowed,
    ∃ after, pattern.root.Emits [] candidate.value.toList after

/-- The candidates for a failing string, of which nothing is assumed, are a stream of shorter
strings and then of strings from narrowed sets. -/
theorem candidates_isCandidateStream {text : String} {flags : Flags} {pattern : Pattern}
    (h : compile text flags = .ok pattern) (seed : Int) (failing : String) :
    ∃ shorter narrowed, pattern.candidates seed failing = shorter ++ narrowed ∧
      pattern.IsCandidateStream seed failing shorter narrowed := by
  have horigins := map_origin_byLength pattern.root (Lcg.ofSeed seed) failing
  have hcount := horigins.length_le
  simp only [List.length_map, List.length_range] at hcount
  have hmem {k : Nat} (hk : k < targetCount failing.length pattern.root.minLength) :
      2 ^ k * (pattern.root.minLength + 1) - 1 ∈
        Candidate.targets failing.length pattern.root.minLength := by
    rw [targets_eq]
    exact List.mem_map_of_mem (List.mem_range.2 hk)
  refine ⟨_, _, rfl, {
    targets := horigins
    target_lt := fun k hk ↦ lt_of_mem_targets (hmem hk)
    length_shorter := fun hlt ↦ ?_
    shorter_eq_nil := fun hle ↦ ?_
    value_lt := fun candidate hmem ↦ (attempt_of_mem_ofTargets hmem).1
    changes := isChain_ofTargets none _
    complete := fun k hk value hvalue hlength ↦ ?_
    levels := map_origin_byLevel ..
    value_le := fun candidate hmem ↦ ?_
    emits :=
  fun candidate hmem ↦ Regex.emits_of_mem_candidates (wellFormed_of_compile h) hmem }⟩
  · rwa [targetCount, if_pos (show pattern.root.minLength < failing.length from hlt)] at hcount
  · rw [targetCount,
      if_neg (show ¬ pattern.root.minLength < failing.length from Nat.not_lt.2 hle)] at hcount
    exact List.eq_nil_of_length_eq_zero (Nat.le_zero.1 hcount)
  · have hattempt : ((pattern.root.generate (Lcg.ofSeed seed)
        (some (2 ^ k * (pattern.minLength + 1) - 1))).map (·.1)).toOption = some value := by
      rw [show (pattern.root.generate (Lcg.ofSeed seed) _).map (·.1) = .ok value from hvalue]
      rfl
    exact (mem_ofTargets (hmem hk) hattempt hlength).resolve_left (by simp)
  · obtain ⟨level, -, -, hcandidate⟩ := exists_level_of_mem_byLevel hmem
    obtain ⟨-, hne, hle, -⟩ := of_atLevel?_eq_some hcandidate
    exact ⟨hne, hle⟩

/-- A failing string of a pattern with backreferences, which no seed has to have produced. -/
theorem candidates_echoes : compile echoes.source .none = .ok echoes ∧
    ∃ shorter narrowed, echoes.candidates 7 "babadbababa" = shorter ++ narrowed ∧
      echoes.IsCandidateStream 7 "babadbababa" shorter narrowed :=
  ⟨compile_echoes, candidates_isCandidateStream compile_echoes 7 "babadbababa"⟩

end Pattern

end Exemplar
