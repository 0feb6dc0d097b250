import Exemplar.Proofs.Shrink.Candidates
import Exemplar.Shrink.Search

/-!
# The search for a smaller failing string

A search without limits ends (`search_terminates`): a candidate that fails has a smaller `rank`
than the string that it replaces, since a shorter string may begin again at the first level and a
string of the same length goes on at a later level.

What a search finds is the end of a `Descent`, in which every string is the first failing candidate
of the one before (`search_sound`). Where the search ran out of candidates, none of those for the
smallest string fails, but for strings from levels that were passed.
-/

namespace Exemplar

namespace CandidateSearch

/-- A measure of a failing string and the level from which its sets are narrowed. -/
def rank (value : String) (level : Nat) : Nat :=
  4 * value.length + (3 - level)

variable {σ : Type} [RandomSource σ]

/-- A candidate has a smaller rank than the string that it may replace. -/
theorem rank_lt_of_mem_candidates {root : Regex} {source : σ} {failing : String} {level : Nat}
    {candidate : Candidate} (h : candidate ∈ root.candidates source failing level) :
    rank candidate.value candidate.origin.nextLevel < rank failing level := by
  unfold rank
  rcases List.mem_append.1 h with h | h
  · obtain ⟨hlt, target, horigin, -⟩ := Candidate.attempt_of_mem_ofTargets h
    rw [horigin, CandidateOrigin.nextLevel]
    omega
  · obtain ⟨found, hfirst, hlast, hcandidate⟩ := Candidate.exists_level_of_mem_byLevel h
    obtain ⟨horigin, -, hle, -⟩ := Candidate.of_atLevel?_eq_some hcandidate
    have hcount : CharSet.levelCount = 3 := rfl
    rw [horigin, CandidateOrigin.nextLevel]
    omega

/-- A candidate is no longer than the string that it may replace. -/
theorem length_le_of_mem_candidates {root : Regex} {source : σ} {failing : String} {level : Nat}
    {candidate : Candidate} (h : candidate ∈ root.candidates source failing level) :
    candidate.value.length ≤ failing.length := by
  rcases List.mem_append.1 h with h | h
  · exact Nat.le_of_lt (Candidate.attempt_of_mem_ofTargets h).1
  · obtain ⟨found, -, -, hcandidate⟩ := Candidate.exists_level_of_mem_byLevel h
    exact (Candidate.of_atLevel?_eq_some hcandidate).2.2.1

/-- The shorter candidates are the same at every level. -/
theorem mem_candidates_of_length {root : Regex} {source : σ} {failing : String} {level : Nat}
    {candidate : Candidate} (h : candidate ∈ root.candidates source failing level)
    (horigin : ∃ target, candidate.origin = .length target) (other : Nat) :
    candidate ∈ root.candidates source failing other := by
  rcases List.mem_append.1 h with h | h
  · exact List.mem_append_left _ h
  · obtain ⟨found, -, -, hcandidate⟩ := Candidate.exists_level_of_mem_byLevel h
    obtain ⟨target, htarget⟩ := horigin
    rw [(Candidate.of_atLevel?_eq_some hcandidate).1] at htarget
    cases htarget

/-! ## Steps of a search -/

section Steps

variable {search : CandidateSearch σ} {result : SearchResult} {fuel : Nat}

/-- A search whose time is over ends. -/
theorem run_of_expired (h : search.limits.expired (search.clock result.tried) = true)
    (candidates : List Candidate) :
    search.run (fuel + 1) candidates result = { result with exhausted := false } := by
  cases candidates <;> simp only [run, h, if_true]

/-- A search without candidates ends. -/
theorem run_nil (h : search.limits.expired (search.clock result.tried) = false) :
    search.run (fuel + 1) [] result = result := by
  simp only [run, h, Bool.false_eq_true, if_false]

/-- A search goes on with the next candidate after one that did not fail. -/
theorem run_cons_of_passes (h : search.limits.expired (search.clock result.tried) = false)
    {candidate : Candidate} (hfails : search.fails result.seen candidate.value = false)
    (candidates : List Candidate) :
    search.run (fuel + 1) (candidate :: candidates) result =
      search.run fuel candidates (result.pass candidate) := by
  simp only [run, h, hfails, Bool.false_eq_true, if_false]

/-- A search begins again after a candidate that failed. -/
theorem run_cons_of_fails (h : search.limits.expired (search.clock result.tried) = false)
    {candidate : Candidate} (hfails : search.fails result.seen candidate.value = true)
    (candidates : List Candidate) :
    search.run (fuel + 1) (candidate :: candidates) result =
      search.run fuel
        (search.root.candidates search.source candidate.value candidate.origin.nextLevel)
        (result.accept candidate) := by
  simp only [run, h, hfails, Bool.false_eq_true, if_false, if_true]

end Steps

/-! ## Termination -/

/-- `Ends search bound candidates result` says that the search from this state comes to the same end
for every large enough fuel, without candidates left and after at most `bound` further ones that
failed. -/
def Ends (search : CandidateSearch σ) (bound : Nat) (candidates : List Candidate)
    (result : SearchResult) : Prop :=
  ∃ needed final, (∀ fuel ≥ needed, search.run fuel candidates result = final) ∧
    final.exhausted = true ∧ final.accepted ≤ result.accepted + bound

/-- Without a time limit, a search whose candidates have ranks below `bound` ends. The induction is
on the bound, and for each bound on the candidates. -/
theorem ends_of_rank_lt (search : CandidateSearch σ) (htimeout : search.limits.timeout = none)
    {bound : Nat} {candidates : List Candidate} {result : SearchResult}
    (hrank : ∀ candidate ∈ candidates, rank candidate.value candidate.origin.nextLevel < bound)
    (hresult : result.exhausted = true) : search.Ends bound candidates result := by
  have hexpired (elapsed : Nat) : search.limits.expired elapsed = false := by
    rw [SearchLimits.expired, htimeout]
    rfl
  induction bound using Nat.strongRecOn generalizing candidates result with
  | ind bound ih =>
    induction candidates generalizing result with
    | nil =>
      refine ⟨1, result, fun fuel hfuel ↦ ?_, hresult, Nat.le_add_right ..⟩
      obtain ⟨fuel, rfl⟩ := Nat.exists_eq_succ_of_ne_zero (Nat.ne_of_gt hfuel)
      exact run_nil (hexpired _)
    | cons candidate candidates ihcandidates =>
      have hhead := hrank candidate (by simp)
      have htail : ∀ other ∈ candidates, rank other.value other.origin.nextLevel < bound :=
        fun other hother ↦ hrank other (List.mem_cons_of_mem _ hother)
      cases hfails : search.fails result.seen candidate.value with
      | false =>
        obtain ⟨needed, final, hrun, hfinal, haccepted⟩ :=
          ihcandidates htail (show (result.pass candidate).exhausted = true from hresult)
        refine ⟨needed + 1, final, fun fuel hfuel ↦ ?_, hfinal, haccepted⟩
        obtain ⟨fuel, rfl⟩ := Nat.exists_eq_succ_of_ne_zero (by omega : fuel ≠ 0)
        exact (run_cons_of_passes (hexpired _) hfails candidates).trans (hrun fuel (by omega))
      | true =>
        -- The search begins again with candidates whose ranks are below that of this one.
        have hnext : ∀ other ∈ search.root.candidates search.source candidate.value
            candidate.origin.nextLevel, rank other.value other.origin.nextLevel <
              rank candidate.value candidate.origin.nextLevel :=
          fun other hother ↦ rank_lt_of_mem_candidates hother
        obtain ⟨needed, final, hrun, hfinal, haccepted⟩ :=
          ih _ hhead hnext (show (result.accept candidate).exhausted = true from hresult)
        refine ⟨needed + 1, final, fun fuel hfuel ↦ ?_, hfinal, ?_⟩
        · obtain ⟨fuel, rfl⟩ := Nat.exists_eq_succ_of_ne_zero (by omega : fuel ≠ 0)
          exact (run_cons_of_fails (hexpired _) hfails candidates).trans (hrun fuel (by omega))
        · have hone : (result.accept candidate).accepted = result.accepted + 1 := rfl
          omega

/-- The limit on the number of candidates counts only as the fuel with which the search begins. -/
theorem run_withIterations (search : CandidateSearch σ) (maxIterations fuel : Nat)
    (candidates : List Candidate) (result : SearchResult) :
    { search with limits := { search.limits with maxIterations } }.run fuel candidates result =
      search.run fuel candidates result := by
  induction fuel generalizing candidates result with
  | zero => rfl
  | succ fuel ih =>
    have hexpired (elapsed : Nat) :
        SearchLimits.expired { search.limits with maxIterations } elapsed =
          search.limits.expired elapsed := rfl
    cases candidates with
    | nil => simp only [run, hexpired]
    | cons candidate candidates => simp only [run, hexpired, ih]

/-! ## Soundness -/

/-- Every string is the first failing candidate of the one before, where narrowing goes on at the
level behind the one that was used last. -/
inductive Descent (root : Regex) (source : σ) (rejects : String → Bool) :
    (value : String) → (level : Nat) → (trail : List Candidate) → Prop
  | stay {value : String} {level : Nat} : Descent root source rejects value level []
  | go {value : String} {level : Nat} {candidate : Candidate} {trail : List Candidate} :
      (root.candidates source value level).find? (fun other ↦ rejects other.value) =
        some candidate →
      Descent root source rejects candidate.value candidate.origin.nextLevel trail →
      Descent root source rejects value level (candidate :: trail)

/-- The string at the end of a trail. -/
def lastValue (value : String) : (trail : List Candidate) → String
  | [] => value
  | candidate :: trail => lastValue candidate.value trail

/-- The level at the end of a trail. -/
def lastLevel (level : Nat) : (trail : List Candidate) → Nat
  | [] => level
  | candidate :: trail => lastLevel candidate.origin.nextLevel trail

/-- The level at the end is the first one when the last candidate is a shorter string. -/
theorem lastLevel_eq_zero {trail : List Candidate}
    (h : ∀ last, trail.getLast? = some last → ∃ target, last.origin = .length target) :
    lastLevel 0 trail = 0 := by
  suffices hlevel : ∀ level, trail ≠ [] → lastLevel level trail = 0 by
    cases trail with
    | nil => rfl
    | cons candidate trail => exact hlevel 0 (by simp)
  induction trail with
  | nil => exact fun level hne ↦ absurd rfl hne
  | cons candidate trail ih =>
    intro level _
    cases trail with
    | nil =>
      obtain ⟨target, horigin⟩ := h candidate rfl
      rw [lastLevel, lastLevel, horigin, CandidateOrigin.nextLevel]
    | cons next trail =>
      have hrest := ih fun last hlast ↦ h last (by simpa using hlast)
      exact hrest candidate.origin.nextLevel (by simp)

namespace Descent

variable {root : Regex} {source : σ} {rejects : String → Bool} {value : String} {level : Nat}
  {trail : List Candidate}

/-- The string at the end is no longer than the one at the start. -/
theorem length_lastValue_le (h : Descent root source rejects value level trail) :
    (lastValue value trail).length ≤ value.length := by
  induction h with
  | stay => exact Nat.le_refl _
  | @go value level candidate trail hfind hdescent ih =>
    have hle := length_le_of_mem_candidates (List.mem_of_find?_eq_some hfind)
    exact Nat.le_trans ih hle

/-- The string at the end fails if the one at the start does. -/
theorem rejects_lastValue (h : Descent root source rejects value level trail)
    (hvalue : rejects value = true) : rejects (lastValue value trail) = true := by
  induction h with
  | stay => exact hvalue
  | @go value level candidate trail hfind hdescent ih =>
    have hrejects := List.find?_some hfind
    exact ih hrejects

/-- The string at the end is the one at the start or a string of the tree. -/
theorem emits_lastValue [RandomSource.Lawful σ] (hwell : root.WellFormed)
    (h : Descent root source rejects value level trail) :
    lastValue value trail = value ∨
      ∃ after, root.Emits [] (lastValue value trail).toList after := by
  induction h with
  | stay => exact .inl rfl
  | @go value level candidate trail hfind hdescent ih =>
    refine .inr (ih.elim (fun heq ↦ ?_) id)
    rw [lastValue, heq]
    exact Regex.emits_of_mem_candidates hwell (List.mem_of_find?_eq_some hfind)

end Descent

/-- What a search with a test that remembers nothing does from some state on. It descends from the
smallest failing string so far to the one at the end, and the candidates of the descent are those
that failed. All of these were tried, no more candidates were tried than the fuel allows, and the
test was given every one of them. When the search ended by itself, no candidate at the end of the
descent fails. -/
structure Outcome (search : CandidateSearch σ) (rejects : String → Bool) (level fuel : Nat)
    (result final : SearchResult) (trail : List Candidate) : Prop where
  descent : Descent search.root search.source rejects result.minimal level trail
  minimal : final.minimal = lastValue result.minimal trail
  accepted : final.accepted = result.accepted + trail.length
  tried_ge : result.tried + trail.length ≤ final.tried
  tried_le : final.tried ≤ result.tried + fuel
  seen : final.seen.length + result.tried = result.seen.length + final.tried
  exhausted : final.exhausted = true →
    ∀ candidate ∈ search.root.candidates search.source final.minimal (lastLevel level trail),
      rejects candidate.value = false

namespace Outcome

variable {search : CandidateSearch σ} {rejects : String → Bool} {level fuel : Nat}
  {result final : SearchResult} {trail : List Candidate} {candidate : Candidate}

/-- A candidate that did not fail was tried before. -/
theorem of_pass (h : search.Outcome rejects level fuel (result.pass candidate) final trail) :
    search.Outcome rejects level (fuel + 1) result final trail := by
  have htried : (result.pass candidate).tried = result.tried + 1 := rfl
  have hseen : (result.pass candidate).seen.length = result.seen.length + 1 := rfl
  have hge := h.tried_ge
  have hle := h.tried_le
  have hcount := h.seen
  exact ⟨h.descent, h.minimal, h.accepted, by omega, by omega, by omega, h.exhausted⟩

/-- A candidate that failed was tried before, and it was the first one to fail. -/
theorem of_accept (hfind : (search.root.candidates search.source result.minimal level).find?
      (fun other ↦ rejects other.value) = some candidate)
    (h : search.Outcome rejects candidate.origin.nextLevel fuel (result.accept candidate) final
      trail) :
    search.Outcome rejects level (fuel + 1) result final (candidate :: trail) := by
  have htried : (result.accept candidate).tried = result.tried + 1 := rfl
  have haccepted : (result.accept candidate).accepted = result.accepted + 1 := rfl
  have hseen : (result.accept candidate).seen.length = result.seen.length + 1 := rfl
  have hlength : (candidate :: trail).length = trail.length + 1 := rfl
  have hge := h.tried_ge
  have hle := h.tried_le
  have hcount := h.seen
  have htotal := h.accepted
  exact ⟨.go hfind h.descent, h.minimal, by omega, by omega, by omega, by omega, h.exhausted⟩

end Outcome

/-- A search from a state in which some candidates were tried and did not fail goes on with the
others, and descends at the first one that fails. -/
theorem exists_outcome (search : CandidateSearch σ) {rejects : String → Bool}
    (hpure : ∀ seen value, search.fails seen value = rejects value) {level fuel : Nat}
    {result : SearchResult} {passed candidates : List Candidate}
    (hcandidates : search.root.candidates search.source result.minimal level = passed ++ candidates)
    (hpassed : ∀ candidate ∈ passed, rejects candidate.value = false) :
    ∃ trail, search.Outcome rejects level fuel result
      (search.run fuel candidates result) trail := by
  induction fuel generalizing level result passed candidates with
  | zero =>
    exact ⟨[], .stay, rfl, rfl, Nat.le_refl _, Nat.le_refl _, rfl, fun h ↦ nomatch h⟩
  | succ fuel ih =>
    cases hexpired : search.limits.expired (search.clock result.tried) with
    | true =>
      rw [run_of_expired hexpired]
      exact ⟨[], .stay, rfl, rfl, Nat.le_refl _, Nat.le_add_right .., rfl, fun h ↦ nomatch h⟩
    | false =>
      cases candidates with
      | nil =>
        rw [run_nil hexpired]
        refine ⟨[], .stay, rfl, rfl, Nat.le_refl _, Nat.le_add_right .., rfl,
          fun _ candidate hmem ↦ ?_⟩
        rw [lastLevel, hcandidates, List.append_nil] at hmem
        exact hpassed candidate hmem
      | cons candidate candidates =>
        cases hrejects : rejects candidate.value with
        | false =>
          -- The candidate joins those that were tried and did not fail.
          have hmore : ∀ other ∈ passed ++ [candidate], rejects other.value = false := by
            intro other hother
            rcases List.mem_append.1 hother with hother | hother
            · exact hpassed other hother
            · rwa [List.mem_singleton.1 hother]
          have hsplit : search.root.candidates search.source (result.pass candidate).minimal level =
              (passed ++ [candidate]) ++ candidates := by
            rw [List.append_assoc]
            exact hcandidates
          obtain ⟨trail, houtcome⟩ := ih hsplit hmore
          rw [run_cons_of_passes hexpired (by rw [hpure, hrejects])]
          exact ⟨trail, houtcome.of_pass⟩
        | true =>
          -- No candidate before this one fails, so it is the first one, and narrowing starts
          -- afresh.
          have hnone : passed.find? (fun other ↦ rejects other.value) = none :=
            List.find?_eq_none.2 (by simpa using hpassed)
          have hfind : (search.root.candidates search.source result.minimal level).find?
              (fun other ↦ rejects other.value) = some candidate := by
            rw [hcandidates, List.find?_append, hnone, Option.none_or]
            exact List.find?_cons_of_pos hrejects
          have hsplit : search.root.candidates search.source (result.accept candidate).minimal
              candidate.origin.nextLevel =
                [] ++ search.root.candidates search.source candidate.value
                  candidate.origin.nextLevel := rfl
          obtain ⟨trail, houtcome⟩ := ih hsplit (by simp)
          rw [run_cons_of_fails hexpired (by rw [hpure, hrejects])]
          exact ⟨candidate :: trail, houtcome.of_accept hfind⟩

end CandidateSearch

namespace Pattern

open CandidateSearch

/-- A search without a time limit ends by itself, whatever the test does: from some number of
iterations on the limit does not matter, no candidate is left, and no more candidates failed than
four for each character of the failing string and three. -/
theorem search_terminates (pattern : Pattern) (seed : Int) (failing : String) (fails : FailureTest)
    (clock : Nat → Nat) :
    ∃ needed final, final.exhausted = true ∧ final.accepted ≤ 4 * failing.length + 3 ∧
      ∀ maxIterations ≥ needed,
        pattern.search seed failing ⟨maxIterations, none⟩ fails clock = final := by
  cases hfails : fails [] failing with
  | false =>
    refine ⟨0, .start failing, rfl, Nat.zero_le _, fun maxIterations _ ↦ ?_⟩
    simp only [Pattern.search, find, hfails, Bool.false_eq_true, if_false]
  | true =>
    let search : CandidateSearch Lcg :=
      { root := pattern.root, source := Lcg.ofSeed seed, limits := ⟨0, none⟩, fails, clock }
    have hrank : ∀ candidate ∈ search.root.candidates search.source failing 0,
        rank candidate.value candidate.origin.nextLevel < rank failing 0 :=
      fun candidate hmem ↦ rank_lt_of_mem_candidates hmem
    obtain ⟨needed, final, hrun, hfinal, haccepted⟩ :=
      ends_of_rank_lt search rfl hrank (show (SearchResult.start failing).exhausted = true from rfl)
    refine ⟨needed, final, hfinal, ?_, fun maxIterations hge ↦ ?_⟩
    · exact Nat.le_trans haccepted (Nat.le_of_eq (Nat.zero_add _))
    · simp only [Pattern.search, find, hfails, if_true]
      exact (run_withIterations search maxIterations maxIterations _ _).trans
        (hrun maxIterations hge)

/-- What a search for a smaller failing string says of its result, when the test remembers nothing
and the failing string fails it. The candidates of `trail` are those that failed, in the order in
which they were taken.

Each string is the first failing candidate of the one before, and the smallest failing string is
the last one. It fails, it is the failing string or a string of the pattern, and it is no longer
than the failing string. Candidates that failed were tried, the limit is kept, and the test was
given the failing string and every candidate that was tried. When the search ended by itself, no
shorter candidate for the result fails, and no candidate at all if the last one that did was a
shorter one, or none was. -/
structure IsSearchResult (pattern : Pattern) (seed : Int) (failing : String) (limit : Nat)
    (rejects : String → Bool) (result : SearchResult) (trail : List Candidate) : Prop where
  descent : Descent pattern.root (Lcg.ofSeed seed) rejects failing 0 trail
  minimal : result.minimal = lastValue failing trail
  accepted : result.accepted = trail.length
  fails : rejects result.minimal = true
  emits : result.minimal = failing ∨ ∃ after, pattern.root.Emits [] result.minimal.toList after
  length_le : result.minimal.length ≤ failing.length
  accepted_le : result.accepted ≤ result.tried
  tried_le : result.tried ≤ limit
  seen : result.seen.length = result.tried + 1
  shorter : result.exhausted = true → ∀ candidate ∈ pattern.candidates seed result.minimal,
    (∃ target, candidate.origin = .length target) → rejects candidate.value = false
  all : result.exhausted = true →
    (∀ last, trail.getLast? = some last → ∃ target, last.origin = .length target) →
      ∀ candidate ∈ pattern.candidates seed result.minimal, rejects candidate.value = false

/-- A search with a test that remembers nothing tries nothing when the failing string passes the
test, and otherwise finds a smallest failing string. -/
theorem search_sound {text : String} {flags : Flags} {pattern : Pattern}
    (h : compile text flags = .ok pattern) (seed : Int) (failing : String) (limit : Nat)
    (rejects : String → Bool) (clock : Nat → Nat) :
    (rejects failing = false →
      pattern.search seed failing ⟨limit, none⟩ (fun _ ↦ rejects) clock = .start failing) ∧
    (rejects failing = true →
      ∃ trail, pattern.IsSearchResult seed failing limit rejects
        (pattern.search seed failing ⟨limit, none⟩ (fun _ ↦ rejects) clock) trail) := by
  refine ⟨fun hfailing ↦ ?_, fun hfailing ↦ ?_⟩
  · simp only [Pattern.search, find, hfailing, Bool.false_eq_true, if_false]
  · let search : CandidateSearch Lcg :=
      { root := pattern.root, source := Lcg.ofSeed seed, limits := ⟨limit, none⟩,
        fails := fun _ ↦ rejects, clock }
    have hsplit : search.root.candidates search.source (SearchResult.start failing).minimal 0 =
        [] ++ search.root.candidates search.source failing 0 := rfl
    obtain ⟨trail, houtcome⟩ := exists_outcome search (fun _ _ ↦ rfl) hsplit (by simp)
    have hsearch : pattern.search seed failing ⟨limit, none⟩ (fun _ ↦ rejects) clock =
        search.run limit (search.root.candidates search.source failing 0) (.start failing) := by
      simp only [Pattern.search, find, hfailing, if_true]
      rfl
    rw [hsearch]
    generalize search.run limit _ _ = final at houtcome
    obtain ⟨hdescent, hminimal, haccepted, hge, hle, hseen, hexhausted⟩ := houtcome
    have hstart : (SearchResult.start failing).accepted = 0 ∧
        (SearchResult.start failing).tried = 0 ∧
        (SearchResult.start failing).seen.length = 1 := ⟨rfl, rfl, rfl⟩
    refine ⟨trail, {
      descent := hdescent
      minimal := hminimal
      accepted := by omega
      fails := hminimal ▸ hdescent.rejects_lastValue hfailing
      emits := hminimal ▸ hdescent.emits_lastValue (wellFormed_of_compile h)
      length_le := hminimal ▸ hdescent.length_lastValue_le
      accepted_le := by omega
      tried_le := by omega
      seen := by omega
      shorter := fun hend candidate hmem horigin ↦ hexhausted hend candidate ?_
      all := fun hend hlast candidate hmem ↦ hexhausted hend candidate ?_ }⟩
    · exact mem_candidates_of_length hmem horigin _
    · rw [lastLevel_eq_zero hlast]
      exact hmem

/-- A search for the shortest failing string of a pattern with backreferences. -/
theorem search_echoes : compile echoes.source .none = .ok echoes ∧ 3 ≤ "babadbababa".length ∧
    ∃ trail, echoes.IsSearchResult 7 "babadbababa" 20 (3 ≤ ·.length)
      (echoes.search 7 "babadbababa" ⟨20, none⟩ (fun _ value ↦ 3 ≤ value.length) id)
        trail :=
  ⟨compile_echoes, by decide,
    (search_sound compile_echoes 7 "babadbababa" 20 (3 ≤ ·.length) id).2 (by decide)⟩

end Pattern

end Exemplar
