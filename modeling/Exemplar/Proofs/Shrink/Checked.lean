import Exemplar.Proofs.Checked.Refinement
import Exemplar.Proofs.Pattern.Checked
import Exemplar.Proofs.Regex.Replacing
import Exemplar.Proofs.Shrink.Search
import Exemplar.Shrink.Checked

/-!
# Searching without faults

The stream of candidates has the first candidates of the list that wrapped arithmetic gives, and all
of them unless it ends at a fault (`candidateStream_agrees`). So a search with checked arithmetic
that comes to its end has the result of the search with wrapped arithmetic
(`search_eq_of_search?`), and what holds of the result of every search holds of it.

A search begins again after each candidate that fails, and it may meet strings that no seed gives
for the pattern. For a failing string that is shorter than the largest size there is no fault on the
way, if the backreferences have the extents of their groups and no least length was cut off
(`search?_eq`).
-/

namespace Exemplar

namespace CandidateStream

/-- The stream has the first candidates of the list, and all of them unless it ends at a fault. -/
def Agrees : CandidateStream → List Candidate → Prop
  | done, candidates => candidates = []
  | fault, _ => True
  | next candidate later, candidates =>
      ∃ rest, candidates = candidate :: rest ∧ later.Agrees rest

variable {stream first later : CandidateStream} {candidates firsts laters : List Candidate}

namespace Agrees

/-- Streams in a row agree with the lists in a row. -/
theorem append (h : first.Agrees firsts) (hlater : later.Agrees laters) :
    (first.append later).Agrees (firsts ++ laters) := by
  induction first generalizing firsts with
  | done =>
    obtain rfl : firsts = [] := h
    exact hlater
  | fault => trivial
  | next candidate rest ih =>
    obtain ⟨others, rfl, hrest⟩ := h
    exact ⟨others ++ laters, rfl, ih hrest⟩

/-- The first candidates are those of the list. -/
theorem take_eq (h : stream.Agrees candidates) {count : Nat} {taken : List Candidate}
    (htake : stream.take? count = some taken) : candidates.take count = taken := by
  induction stream generalizing count candidates taken with
  | done =>
    obtain rfl : candidates = [] := h
    cases count <;> exact List.take_nil.trans (Option.some.inj htake)
  | fault =>
    cases count with
    | zero => exact Option.some.inj htake
    | succ count => cases htake
  | next candidate later ih =>
    obtain ⟨rest, rfl, hrest⟩ := h
    cases count with
    | zero => exact Option.some.inj htake
    | succ count =>
      obtain ⟨others, hothers, rfl⟩ := Option.map_eq_some_iff.1 htake
      rw [List.take_succ_cons, ih hrest hothers]

/-- All candidates are those of the list. -/
theorem toList_eq (h : stream.Agrees candidates) {all : List Candidate}
    (hall : stream.toList? = some all) : candidates = all := by
  induction stream generalizing candidates all with
  | done =>
    obtain rfl : candidates = [] := h
    exact Option.some.inj hall
  | fault => cases hall
  | next candidate later ih =>
    obtain ⟨rest, rfl, hrest⟩ := h
    obtain ⟨others, hothers, rfl⟩ := Option.map_eq_some_iff.1 hall
    rw [ih hrest hothers]

end Agrees

/-- The candidates of streams in a row are those of the first one and then those of the other. -/
theorem toList?_append (h : first.toList? = some firsts) (hlater : later.toList? = some laters) :
    (first.append later).toList? = some (firsts ++ laters) := by
  induction first generalizing firsts with
  | done =>
    cases h
    exact hlater
  | fault => cases h
  | next candidate rest ih =>
    obtain ⟨others, hothers, rfl⟩ := Option.map_eq_some_iff.1 h
    rw [append, toList?, ih hothers]
    rfl

section Targets

variable {attempt? : Nat → Option (Option String)} {attempt : Nat → Option String} {limit : Nat}

/-- The candidates for targets agree when each attempt finds what it should. -/
theorem ofTargets_agrees
    (h : ∀ target found, attempt? target = some found → attempt target = found)
    (last : Option String) (targets : List Nat) :
    (ofTargets attempt? limit last targets).Agrees
      (Candidate.ofTargets attempt limit last targets) := by
  induction targets generalizing last with
  | nil => rfl
  | cons target targets ih =>
    rw [ofTargets, Candidate.ofTargets]
    cases hfound : attempt? target with
    | none => trivial
    | some found =>
      rw [h target found hfound]
      cases found with
      | none => exact ih last
      | some value =>
        dsimp only
        split
        · exact ⟨_, rfl, ih (some value)⟩
        · exact ih last

/-- There are candidates for targets without a fault when no attempt meets one. -/
theorem toList?_ofTargets {targets : List Nat}
    (h : ∀ target ∈ targets, attempt? target = some (attempt target)) (last : Option String) :
    (ofTargets attempt? limit last targets).toList? =
      some (Candidate.ofTargets attempt limit last targets) := by
  induction targets generalizing last with
  | nil => rfl
  | cons target targets ih =>
    obtain ⟨htarget, htargets⟩ := List.forall_mem_cons.1 h
    rw [ofTargets, Candidate.ofTargets, htarget]
    cases attempt target with
    | none => exact ih htargets last
    | some value =>
      dsimp only
      split
      · rw [toList?, ih htargets]
        rfl
      · exact ih htargets last

end Targets

section Levels

variable {attempt? : Nat → Option (Option Candidate)} {attempt : Nat → Option Candidate}

/-- The candidates of levels agree when each attempt finds what it should. -/
theorem ofLevels_agrees (h : ∀ level found, attempt? level = some found → attempt level = found)
    (levels : List Nat) : (ofLevels attempt? levels).Agrees (levels.filterMap attempt) := by
  induction levels with
  | nil => rfl
  | cons level levels ih =>
    rw [ofLevels, List.filterMap_cons]
    cases hfound : attempt? level with
    | none => trivial
    | some found =>
      rw [h level found hfound]
      cases found with
      | none => exact ih
      | some candidate => exact ⟨_, rfl, ih⟩

/-- There are candidates of levels without a fault when no attempt meets one. -/
theorem toList?_ofLevels (h : ∀ level, attempt? level = some (attempt level))
    (levels : List Nat) : (ofLevels attempt? levels).toList? = some (levels.filterMap attempt) := by
  induction levels with
  | nil => rfl
  | cons level levels ih =>
    rw [ofLevels, List.filterMap_cons, h level]
    cases attempt level with
    | none => exact ih
    | some candidate =>
      rw [toList?, ih]
      rfl

end Levels

end CandidateStream

namespace Regex

/-! ## Narrowed trees -/

section Narrowed

variable (replace : CharSet → CharSet) {node tree : Regex} {largest : Option Nat}

/-- The trees inside a tree whose sets are replaced are those inside the tree, with their sets
replaced. -/
theorem visible_mapSets (tree : Regex) :
    (tree.mapSets replace).visible = tree.visible.map (mapSets replace) := by
  have hlist {trees : List Regex} (h : ∀ tree ∈ trees,
      (tree.mapSets replace).visible = tree.visible.map (mapSets replace)) :
      visibleAll (mapSetsAll replace trees) = (visibleAll trees).map (mapSets replace) := by
    rw [mapSetsAll_eq_map, visibleAll_eq_flatMap, visibleAll_eq_flatMap, List.flatMap_map,
      List.map_flatMap]
    exact List.flatMap_congr h
  induction tree with
  | empty => rfl
  | literal text ignoreCase => rfl
  | set members => rfl
  | sequence parts ih => rw [mapSets, visible, hlist ih, visible, List.map_cons, mapSets]
  | choice options ih => rw [mapSets, visible, hlist ih, visible, List.map_cons, mapSets]
  | repetition body least most mode ih => rw [mapSets, visible, ih, visible, List.map_cons, mapSets]
  | group kind body ih =>
    rw [mapSets, visible, ih, visible, List.map_cons, mapSets]
    cases kind <;> rfl
  | backref id extent => rfl

/-- Replacing the sets of a tree does not change which copies fit. -/
theorem CopiesFit.mapSets (h : node.CopiesFit largest) :
    (node.mapSets replace).CopiesFit largest := by
  cases node with
  | repetition body least most mode =>
    rw [Regex.mapSets, CopiesFit, extent_mapSets, minLength_mapSets]
    exact h
  | _ => trivial

/-- A tree stays covered by a budget when its sets are replaced. -/
theorem IsCovered.mapSets (h : node.IsCovered largest) :
    (node.mapSets replace).IsCovered largest where
  valid := by
    rw [extent_mapSets]
    exact h.valid
  least := by
    rw [minLength_mapSets]
    exact h.least
  copies := h.copies.mapSets replace

/-- A tree whose sets are replaced is generated from without a fault when the tree with a target is
covered by a budget that the target does not exceed. -/
theorem generate?_mapSets_eq {σ : Type} [RandomSource σ] [RandomSource.Lawful σ] {target : Nat}
    (hvalid : ∀ node ∈ tree.visible, node.extent.Valid) (hwell : (tree.sized target).WellFormed)
    (hcovered : ∀ node ∈ (tree.sized target).visible, node.IsCovered largest)
    (htarget : UpTo largest (some target)) (source : σ) :
    (tree.mapSets replace).generate? source (some target) =
      some ((tree.mapSets replace).generate source (some target)) := by
  have hsized : (tree.mapSets replace).towards (some target) =
      (tree.sized target).mapSets replace := sized_mapSets replace tree target
  refine generate?_eq ?_ ?_ ?_ htarget source
  · rw [visible_mapSets, List.forall_mem_map]
    intro node hnode
    rw [extent_mapSets]
    exact hvalid node hnode
  · rw [hsized]
    exact hwell.mapSets replace
  · rw [hsized, visible_mapSets, List.forall_mem_map]
    exact fun node hnode ↦ (hcovered node hnode).mapSets replace

end Narrowed

variable {σ : Type} [RandomSource σ] {tree : Regex}

/-! ## The candidates for one string -/

/-- The stream agrees with the candidates. -/
theorem candidateStream_agrees (tree : Regex) (source : σ) (failing : String) (level : Nat) :
    (tree.candidateStream source failing level).Agrees (tree.candidates source failing level) := by
  refine (CandidateStream.ofTargets_agrees (fun target found hfound ↦ ?_) _ _).append
    (CandidateStream.ofLevels_agrees (fun level found hfound ↦ ?_) _)
  · obtain ⟨outcome, houtcome, rfl⟩ := Option.map_eq_some_iff.1 hfound
    rw [generate_eq_of_generate? houtcome]
  · rw [CandidateStream.atLevel] at hfound
    rw [Candidate.atLevel?]
    split at hfound
    · rename_i hsame
      rw [if_pos hsame]
      exact Option.some.inj hfound
    · rename_i hother
      obtain ⟨outcome, houtcome, rfl⟩ := Option.map_eq_some_iff.1 hfound
      cases outcome <;> simp only [if_neg hother, generate_eq_of_generate? houtcome]

/-- Strings for a target are generated without a fault from the tree and from its narrowed forms. -/
structure IsFaultless (tree : Regex) (source : σ) (target : Nat) : Prop where
  whole : tree.generate? source (some target) = some (tree.generate source (some target))
  narrowed (level : Nat) : (tree.mapSets (·.narrow level)).generate? source (some target) =
    some ((tree.mapSets (·.narrow level)).generate source (some target))

/-- There are candidates for a failing string without a fault when there is none for any target up
to its length. -/
theorem toList?_candidateStream {source : σ} {failing : String}
    (h : ∀ target ≤ failing.length, tree.IsFaultless source target) (level : Nat) :
    (tree.candidateStream source failing level).toList? =
      some (tree.candidates source failing level) := by
  refine CandidateStream.toList?_append
    (CandidateStream.toList?_ofTargets (fun target htarget ↦ ?_) none)
    (CandidateStream.toList?_ofLevels (fun level ↦ ?_) _)
  · rw [CandidateStream.atTarget,
      (h target (Nat.le_of_lt (Candidate.lt_of_mem_targets htarget))).whole]
    rfl
  · rw [CandidateStream.atLevel, Candidate.atLevel?]
    split
    · rfl
    · rw [(h failing.length (Nat.le_refl _)).narrowed level]
      rfl

end Regex

namespace CandidateSearch

variable {σ : Type} [RandomSource σ] {search : CandidateSearch σ} {stream : CandidateStream}
  {candidates : List Candidate} {result outcome : SearchResult} {fuel : Nat}

/-! ## Whole searches -/

/-- A search with checked arithmetic that comes to its end has the result of the search. -/
theorem run_eq_of_run? (h : stream.Agrees candidates)
    (hrun : search.run? fuel stream result = some outcome) :
    search.run fuel candidates result = outcome := by
  induction fuel generalizing stream candidates result with
  | zero => exact Option.some.inj hrun
  | succ fuel ih =>
    rw [run?.eq_def] at hrun
    rw [run.eq_def]
    dsimp only at hrun ⊢
    split at hrun
    · rename_i hexpired
      rw [if_pos hexpired]
      exact Option.some.inj hrun
    · rename_i hexpired
      rw [if_neg hexpired]
      cases stream with
      | done =>
        obtain rfl : candidates = [] := h
        exact Option.some.inj hrun
      | fault => cases hrun
      | next candidate later =>
        obtain ⟨rest, rfl, hrest⟩ := h
        dsimp only at hrun ⊢
        split at hrun
        · rename_i hfails
          rw [if_pos hfails]
          exact ih (Regex.candidateStream_agrees ..) hrun
        · rename_i hpasses
          rw [if_neg hpasses]
          exact ih hrest hrun

/-- There is no fault in a search for strings up to a length when there is none for any target up
to it. -/
theorem run?_eq {limit : Nat}
    (h : ∀ target ≤ limit, search.root.IsFaultless search.source target)
    (hstream : stream.toList? = some candidates)
    (hlength : ∀ candidate ∈ candidates, candidate.value.length ≤ limit) :
    search.run? fuel stream result = some (search.run fuel candidates result) := by
  induction fuel generalizing stream candidates result with
  | zero => rfl
  | succ fuel ih =>
    rw [run?.eq_def, run.eq_def]
    dsimp only
    split
    · rfl
    · cases stream with
      | done =>
        cases hstream
        rfl
      | fault => cases hstream
      | next candidate later =>
        obtain ⟨rest, hrest, rfl⟩ := Option.map_eq_some_iff.1 hstream
        obtain ⟨hfirst, hlater⟩ := List.forall_mem_cons.1 hlength
        dsimp only
        split
        · -- The candidates for a candidate are no longer than it.
          refine ih (Regex.toList?_candidateStream
            (fun target htarget ↦ h target (Nat.le_trans htarget hfirst)) _) ?_
          exact fun other hother ↦ Nat.le_trans (length_le_of_mem_candidates hother) hfirst
        · exact ih hrest hlater

end CandidateSearch

namespace Pattern

variable {text : String} {flags : Flags} {pattern : Pattern} {seed : Int} {failing : String}
  {limits : SearchLimits} {fails : FailureTest} {clock : Nat → Nat}

/-- Where a search with checked arithmetic has a result, it is the result of the search with wrapped
arithmetic. -/
theorem search_eq_of_search? {result : SearchResult}
    (h : pattern.search? seed failing limits fails clock = some result) :
    pattern.search seed failing limits fails clock = result := by
  rw [search?, CandidateSearch.find?] at h
  rw [search, CandidateSearch.find]
  dsimp only at h ⊢
  split at h
  · rename_i hfails
    rw [if_pos hfails]
    exact CandidateSearch.run_eq_of_run? (Regex.candidateStream_agrees ..) h
  · rename_i hpasses
    rw [if_neg hpasses]
    exact Option.some.inj h

/-- Strings for a target below the largest size are generated without a fault from a pattern that
compiles and from its narrowed forms, if the backreferences have the extents of their groups and no
least length was cut off. -/
theorem isFaultless_of_lt (h : compile text flags = .ok pattern)
    (hmatch : pattern.root.HasMatchingReferences) (hexact : pattern.root.IsExact) {target : Nat}
    (htarget : target < Size.largest) {σ : Type} [RandomSource σ] [RandomSource.Lawful σ]
    (source : σ) : pattern.root.IsFaultless source target := by
  have hvalid := valid_of_compile h
  have hexact := hexact.sized hmatch target
  refine ⟨generateFrom_faultless_of_lt h hmatch htarget hexact source, fun level ↦ ?_⟩
  have hbudget : UpTo (some Regex.largestBudget) (some target) :=
    .some (Nat.le_of_lt_succ htarget)
  refine Regex.generate?_mapSets_eq _ hvalid ((wellFormed_of_compile h).towards (some target))
    (fun node hnode ↦ ?_) hbudget source
  refine ⟨Regex.valid_sized hvalid target node hnode, fun limit hlimit ↦ ?_,
    Regex.copiesFit_sized (hasCounts_of_compile h) (canRepeat_of_compile h) hvalid hmatch htarget
      hexact node hnode⟩
  cases hlimit
  exact ⟨Nat.le_of_lt_succ (hexact node hnode), by decide⟩

/-- A search meets no fault, whatever the test and the limits are, for a pattern that compiles and
a failing string that is shorter than the largest size, if the backreferences have the extents of
their groups and no least length was cut off. -/
theorem search?_eq (h : compile text flags = .ok pattern)
    (hmatch : pattern.root.HasMatchingReferences) (hexact : pattern.root.IsExact)
    (hlength : failing.length < Size.largest) :
    pattern.search? seed failing limits fails clock =
      some (pattern.search seed failing limits fails clock) := by
  have hfaultless (target : Nat) (htarget : target ≤ failing.length) :
      pattern.root.IsFaultless (Lcg.ofSeed seed) target :=
    isFaultless_of_lt h hmatch hexact (Nat.lt_of_le_of_lt htarget hlength) _
  rw [search?, CandidateSearch.find?, search, CandidateSearch.find]
  dsimp only
  split
  · exact CandidateSearch.run?_eq hfaultless (Regex.toList?_candidateStream hfaultless 0)
      fun candidate ↦ CandidateSearch.length_le_of_mem_candidates
  · rfl

example (seed : Int) (limits : SearchLimits) (fails : FailureTest) (clock : Nat → Nat) :
    echoes.search? seed "abab" limits fails clock =
      some (echoes.search seed "abab" limits fails clock) :=
  search?_eq compile_echoes (by decide +kernel) (by decide +kernel) (by decide +kernel)

end Pattern

end Exemplar
