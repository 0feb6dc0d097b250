import Exemplar.Proofs.Shrink.Search

/-!
# Searches that come back

A search compares a candidate with the string before it and not with the string at the start. A
shorter string is never followed by a longer one, but narrowing the sets at one level may lead away
from the failing string and at a later level back to it. Apart from that, a search has found a
smaller string just when its result is another one (`foundSmaller_iff`).
-/

namespace Exemplar

variable {σ : Type} [RandomSource σ]

namespace Candidate

variable {root : Regex} {source : σ} {failing other : String} {level : Nat} {candidate : Candidate}

/-- Narrowed sets give the same candidate for every other string of the same length. -/
theorem atLevel?_of_length_eq (h : atLevel? root source failing level = some candidate)
    (hlength : other.length = failing.length) (hne : candidate.value ≠ other) :
    atLevel? root source other level = some candidate := by
  unfold atLevel? at h ⊢
  simp only at h ⊢
  rw [hlength]
  split at h
  · cases h
  · rename_i hchanges
    rw [if_neg hchanges]
    split at h
    · split at h
      · rename_i value next hgenerate hvalue
        cases h
        exact if_pos ⟨hne, hvalue.2⟩
      · cases h
    · cases h

/-- A candidate of the length of the string before it comes from narrowed sets. -/
theorem exists_level_of_length_eq (h : candidate ∈ root.candidates source failing level)
    (hlength : candidate.value.length = failing.length) :
    ∃ found, level ≤ found ∧ found < CharSet.levelCount ∧
      candidate.origin.nextLevel = found + 1 ∧
      atLevel? root source failing found = some candidate := by
  rcases List.mem_append.1 h with h | h
  · exact absurd hlength (Nat.ne_of_lt (attempt_of_mem_ofTargets h).1)
  · obtain ⟨found, hfirst, hlast, hcandidate⟩ := exists_level_of_mem_byLevel h
    refine ⟨found, hfirst, hlast, ?_, hcandidate⟩
    rw [(of_atLevel?_eq_some hcandidate).1, CandidateOrigin.nextLevel]

end Candidate

namespace CandidateSearch

open Candidate

/-- Sets narrowed to some level give another failing string, and narrowed to a later level they
give the first one back. -/
def ComesBack (root : Regex) (source : σ) (rejects : String → Bool) (failing : String) : Prop :=
  ∃ later < CharSet.levelCount, ∃ level < later,
    ∃ candidate ∈ atLevel? root source failing level, rejects candidate.value = true ∧
      (atLevel? root source candidate.value later).map (·.value) = some failing

instance (root : Regex) (source : σ) (rejects : String → Bool) (failing : String) :
    Decidable (ComesBack root source rejects failing) :=
  inferInstanceAs
    (Decidable (∃ later < _, ∃ level < later, ∃ candidate ∈ atLevel? .., _ ∧ _))

variable {root : Regex} {source : σ} {rejects : String → Bool} {failing value : String}
  {level : Nat} {trail : List Candidate}

/-- The last string of a trail that keeps its length comes from narrowed sets, at a level that was
not passed before. -/
theorem Descent.exists_last_level (h : Descent root source rejects value level trail)
    (hne : trail ≠ []) (hlength : (lastValue value trail).length = value.length) :
    ∃ before later, before.length = value.length ∧ level ≤ later ∧
      later < CharSet.levelCount ∧
      (atLevel? root source before later).map (·.value) = some (lastValue value trail) := by
  induction h with
  | stay => exact absurd rfl hne
  | @go value level candidate trail hfind hdescent ih =>
    have hmem := List.mem_of_find?_eq_some hfind
    have hshrinks := length_le_of_mem_candidates hmem
    have hrest := hdescent.length_lastValue_le
    have hcandidate : candidate.value.length = value.length := by
      rw [lastValue] at hlength
      omega
    obtain ⟨found, hfirst, hlast, hnext, hlevel⟩ := exists_level_of_length_eq hmem hcandidate
    cases trail with
    | nil => exact ⟨value, found, rfl, hfirst, hlast, by rw [hlevel]; rfl⟩
    | cons next trail =>
      obtain ⟨before, later, hbefore, hpassed, hlater, hvalue⟩ :=
        ih (List.cons_ne_nil _ _) (hlength.trans hcandidate.symm)
      exact ⟨before, later, hbefore.trans hcandidate, by omega, hlater, hvalue⟩

/-- A trail that ends where it began leaves the string at one level and comes back at a later
one. -/
theorem Descent.comesBack (h : Descent root source rejects failing 0 trail) (hne : trail ≠ [])
    (hlast : lastValue failing trail = failing) : ComesBack root source rejects failing := by
  cases h with
  | stay => exact absurd rfl hne
  | @go _ _ candidate trail hfind hdescent =>
    have hmem := List.mem_of_find?_eq_some hfind
    have hrejects := List.find?_some hfind
    have hback : lastValue candidate.value trail = failing := hlast
    have hshrinks := length_le_of_mem_candidates hmem
    have hrest := hdescent.length_lastValue_le
    rw [hback] at hrest
    have hlength : candidate.value.length = failing.length := Nat.le_antisymm hshrinks hrest
    obtain ⟨found, -, -, hnext, hlevel⟩ := exists_level_of_length_eq hmem hlength
    have hother := (of_atLevel?_eq_some hlevel).2.1
    have hmore : trail ≠ [] := fun hnil ↦ hother (by rwa [hnil] at hback)
    obtain ⟨before, later, hbefore, hpassed, hlater, hvalue⟩ :=
      hdescent.exists_last_level hmore (by rw [hback, hlength])
    rw [hback] at hvalue
    obtain ⟨last, hreturn, hvalue⟩ := Option.map_eq_some_iff.1 hvalue
    -- The string before the last one has the same length, so the first one comes back from here
    -- too.
    have hreturn := atLevel?_of_length_eq hreturn hbefore.symm (hvalue ▸ hother.symm)
    exact ⟨later, hlater, found,
      by omega, candidate, hlevel, hrejects, by rw [hreturn, ← hvalue]; rfl⟩

end CandidateSearch

namespace Pattern

open CandidateSearch

/-- A search with a test that remembers nothing says that it found a smaller string just when its
result differs from the failing string, unless narrowing leads away from the failing string and
back to it. -/
theorem foundSmaller_iff (pattern : Pattern) (seed : Int) (failing : String) (limits : SearchLimits)
    (rejects : String → Bool) (clock : Nat → Nat)
    (h : ¬ ComesBack pattern.root (Lcg.ofSeed seed) rejects failing) :
    (pattern.search seed failing limits (fun _ ↦ rejects) clock).foundSmaller = true ↔
      (pattern.search seed failing limits (fun _ ↦ rejects) clock).minimal ≠ failing := by
  cases hfailing : rejects failing with
  | false => simp [Pattern.search, find, hfailing, SearchResult.foundSmaller, SearchResult.start]
  | true =>
    let search : CandidateSearch Lcg :=
      { root := pattern.root, source := Lcg.ofSeed seed, limits, fails := fun _ ↦ rejects, clock }
    have hsplit : search.root.candidates search.source (SearchResult.start failing).minimal 0 =
        [] ++ search.root.candidates search.source failing 0 := rfl
    obtain ⟨trail, houtcome⟩ := exists_outcome search (fun _ _ ↦ rfl) hsplit (by simp)
    have hsearch : pattern.search seed failing limits (fun _ ↦ rejects) clock =
        search.run limits.maxIterations (search.root.candidates search.source failing 0)
          (.start failing) := by
      simp only [Pattern.search, find, hfailing, if_true]
      rfl
    have haccepted : (pattern.search seed failing limits (fun _ ↦ rejects) clock).accepted =
        trail.length := by
      rw [hsearch, houtcome.accepted]
      exact Nat.zero_add _
    rw [SearchResult.foundSmaller, decide_eq_true_eq, haccepted, hsearch, houtcome.minimal]
    constructor
    · intro hfound hlast
      exact h (houtcome.descent.comesBack (List.length_pos_iff.1 hfound) hlast)
    · intro hother
      refine List.length_pos_iff.2 fun hnil ↦ hother ?_
      rw [hnil]
      rfl

/-- A letter or a punctuation mark. -/
def letterOrMark : Pattern where
  source := "[!ab]"
  flags := .none
  root := .set (.ofChars ['!', 'a', 'b'])

/-- A search that finds a simpler letter in two steps. -/
theorem foundSmaller_letterOrMark :
    ¬ ComesBack letterOrMark.root (Lcg.ofSeed 17) (fun _ ↦ true) "!" ∧
    (letterOrMark.search 17 "!" {} (fun _ _ ↦ true) id).accepted = 2 ∧
    (letterOrMark.search 17 "!" {} (fun _ _ ↦ true) id).foundSmaller = true := by
  have hleads : ¬ ComesBack letterOrMark.root (Lcg.ofSeed 17) (fun _ ↦ true) "!" := by
    decide +kernel
  exact ⟨hleads, by decide +kernel, (foundSmaller_iff _ _ _ _ _ _ hleads).2 (by decide +kernel)⟩

/-- A search that comes back to the string that the pattern generated for the seed says that it
found a smaller one. -/
theorem foundSmaller_although_unchanged :
    compile letterOrMark.source .none = .ok letterOrMark ∧
    letterOrMark.generate 20 (some 1) = .ok "a" ∧
    (letterOrMark.search 20 "a" {} (fun _ _ ↦ true) id).minimal = "a" ∧
    (letterOrMark.search 20 "a" {} (fun _ _ ↦ true) id).foundSmaller = true := by
  decide +kernel

end Pattern

end Exemplar
