import Exemplar.Shrink.Search

/-!
# Searching with checked arithmetic

The candidates for a failing string are generated one after another, each when it is asked for. With
checked arithmetic they come as a stream that ends early where a generation meets a fault. A search
that asks for a candidate there ends with the whole program. A search that comes to its end before
does not notice the fault. This is the search that runs.
-/

namespace Exemplar

/-- Candidates one after another: there are no more, the next one meets a fault, or there is a next
candidate with the later ones behind it. -/
inductive CandidateStream where
  | done
  | fault
  | next (candidate : Candidate) (later : CandidateStream)
  deriving DecidableEq, Repr, Inhabited

namespace CandidateStream

/-- The candidates of two streams, one behind the other. -/
def append : (first later : CandidateStream) → CandidateStream
  | done, later => later
  | fault, _ => fault
  | next candidate rest, later => next candidate (rest.append later)

/-- The first candidates, or all if there are fewer, unless there is a fault before. -/
def take? : Nat → CandidateStream → Option (List Candidate)
  | 0, _ => some []
  | _ + 1, done => some []
  | _ + 1, fault => none
  | count + 1, next candidate later => (take? count later).map (candidate :: ·)

/-- All candidates, unless there is a fault. -/
def toList? : CandidateStream → Option (List Candidate)
  | done => some []
  | fault => none
  | next candidate later => later.toList?.map (candidate :: ·)

/-- Keep the strings that are shorter than `limit` and differ from the one kept before, up to the
first fault. -/
def ofTargets (attempt : Nat → Option (Option String)) (limit : Nat) :
    (last : Option String) → (targets : List Nat) → CandidateStream
  | _, [] => done
  | last, target :: targets =>
      match attempt target with
      | some (some value) =>
          if value.length < limit ∧ last ≠ some value then
            next ⟨value, .length target⟩ (ofTargets attempt limit (some value) targets)
          else ofTargets attempt limit last targets
      | some none => ofTargets attempt limit last targets
      | none => fault

/-- The candidates of the levels at which there is one, up to the first fault. -/
def ofLevels (attempt : Nat → Option (Option Candidate)) : (levels : List Nat) → CandidateStream
  | [] => done
  | level :: levels =>
      match attempt level with
      | some (some candidate) => next candidate (ofLevels attempt levels)
      | some none => ofLevels attempt levels
      | none => fault

variable {σ : Type} [RandomSource σ]

/-- The string for a length target, if one is generated, unless there is a fault. -/
def atTarget (root : Regex) (source : σ) (target : Nat) : Option (Option String) :=
  (root.generate? source (some target)).map fun outcome ↦ (outcome.map (·.1)).toOption

/-- The candidate from sets narrowed to a level, if that changes the tree and the string, unless
there is a fault. -/
def atLevel (root : Regex) (source : σ) (failing : String) (level : Nat) :
    Option (Option Candidate) :=
  let narrowed := root.mapSets (·.narrow level)
  if narrowed = root then some none
  else
    (narrowed.generate? source (some failing.length)).map fun outcome ↦
      match outcome with
      | .ok (value, _) =>
          if value ≠ failing ∧ value.length ≤ failing.length then
            some ⟨value, .narrowed level⟩
          else none
      | .error _ => none

end CandidateStream

/-- The candidates for a failing string, up to the first fault. -/
def Regex.candidateStream {σ : Type} [RandomSource σ] (root : Regex) (source : σ)
    (failing : String) (level : Nat) : CandidateStream :=
  (CandidateStream.ofTargets (CandidateStream.atTarget root source) failing.length none
    (Candidate.targets failing.length root.minLength)).append
      (CandidateStream.ofLevels (CandidateStream.atLevel root source failing)
        ((List.range CharSet.levelCount).drop level))

/-- The candidates for a failing string that the pattern generated for a seed, up to the first
fault. -/
def Pattern.candidateStream (pattern : Pattern) (seed : Int) (failing : String) :
    CandidateStream :=
  pattern.root.candidateStream (Lcg.ofSeed seed) failing 0

namespace CandidateSearch

variable {σ : Type} [RandomSource σ]

/-- Try the candidates of a stream in order, at most `fuel` of them, and begin again after one that
fails, unless the next candidate meets a fault. -/
def run? (search : CandidateSearch σ) :
    (fuel : Nat) → (candidates : CandidateStream) → SearchResult → Option SearchResult
  | 0, _, result => some { result with exhausted := false }
  | fuel + 1, candidates, result =>
      if search.limits.expired (search.clock result.tried) then
        some { result with exhausted := false }
      else
        match candidates with
        | .done => some result
        | .fault => none
        | .next candidate later =>
            if search.fails result.seen candidate.value then
              search.run? fuel
                (search.root.candidateStream search.source candidate.value
                  candidate.origin.nextLevel)
                (result.accept candidate)
            else search.run? fuel later (result.pass candidate)

/-- Search with checked arithmetic for a smaller string that fails, beginning with a string that is
expected to fail. -/
def find? (search : CandidateSearch σ) (failing : String) : Option SearchResult :=
  let result := SearchResult.start failing
  if search.fails [] failing then
    search.run? search.limits.maxIterations
      (search.root.candidateStream search.source failing 0) result
  else some result

end CandidateSearch

/-- Search with checked arithmetic for a smaller string of the pattern that fails a test, beginning
with the string that was generated for a seed. -/
def Pattern.search? (pattern : Pattern) (seed : Int) (failing : String) (limits : SearchLimits)
    (fails : FailureTest) (clock : Nat → Nat) : Option SearchResult :=
  CandidateSearch.find?
    { root := pattern.root, source := Lcg.ofSeed seed, limits, fails, clock } failing

end Exemplar
