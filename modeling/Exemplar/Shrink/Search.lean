import Exemplar.Shrink.Candidates

/-!
# Searching for a smaller failing string

The search gives candidates to a test one by one. A candidate that fails too takes the place of the
failing string, and the search goes on from there. It ends when no candidate fails, or at a limit on
the number of candidates or on the time.

The test may remember what it was given before, so it is a function of those strings too. Time is a
function of the number of candidates tried.

Here the candidates are generated with wrapped arithmetic. The search that runs checks the
arithmetic, and it has the same result unless there is a fault.
-/

namespace Exemplar

/-- The limits of a search: the largest number of candidates that are tried, and the time in
milliseconds, if it is limited. -/
structure SearchLimits where
  maxIterations : Nat := 1000
  timeout : Option Nat := some 10000
  deriving DecidableEq, Repr, Inhabited

namespace SearchLimits

/-- Refuse limits that leave nothing to try. -/
def validate (limits : SearchLimits) : Except ConfigError Unit :=
  if limits.maxIterations = 0 then .error (.invalidShrinkIterations limits.maxIterations)
  else if limits.timeout = some 0 then .error .invalidTimeout
  else .ok ()

/-- Whether the time is over after the given number of milliseconds. -/
def expired (limits : SearchLimits) (elapsed : Nat) : Bool :=
  limits.timeout.any (· ≤ elapsed)

end SearchLimits

/-- A test, which says whether a string fails it after it was given other strings, latest first. -/
abbrev FailureTest := (before : List String) → String → Bool

/-- The state and the outcome of a search. It began with `failing`, and `minimal` is the smallest
failing string that was found. Of the `tried` candidates, `accepted` ones failed. When the search
ended because no candidate failed, it is `exhausted`. The strings that the test was given are
`seen`, latest first. -/
structure SearchResult where
  failing : String
  minimal : String
  accepted : Nat
  tried : Nat
  exhausted : Bool
  seen : List String
  deriving DecidableEq, Repr, Inhabited

namespace SearchResult

/-- The state before any candidate was tried. -/
def start (failing : String) : SearchResult :=
  ⟨failing, failing, 0, 0, true, [failing]⟩

/-- The state after one more candidate did not fail. -/
def pass (result : SearchResult) (candidate : Candidate) : SearchResult :=
  { result with tried := result.tried + 1, seen := candidate.value :: result.seen }

/-- The state after one more candidate failed. -/
def accept (result : SearchResult) (candidate : Candidate) : SearchResult :=
  { result.pass candidate with
    minimal := candidate.value
    accepted := result.accepted + 1 }

/-- Whether a smaller failing string was found. -/
def foundSmaller (result : SearchResult) : Bool :=
  result.accepted > 0

end SearchResult

/-- The level from which sets are narrowed after a candidate failed. -/
def CandidateOrigin.nextLevel : CandidateOrigin → Nat
  | length _ => 0
  | narrowed level => level + 1

/-- The limits of a search, the test and the time, for a tree and for the source from which the
failing string was generated. The `clock` has the milliseconds that have passed when a number of
candidates was tried. -/
structure CandidateSearch (σ : Type) where
  root : Regex
  source : σ
  limits : SearchLimits
  fails : FailureTest
  clock : Nat → Nat

namespace CandidateSearch

variable {σ : Type} [RandomSource σ]

/-- Try the candidates in order, at most `fuel` of them, and begin again after one that fails. -/
def run (search : CandidateSearch σ) :
    (fuel : Nat) → (candidates : List Candidate) → SearchResult → SearchResult
  | 0, _, result => { result with exhausted := false }
  | fuel + 1, candidates, result =>
      if search.limits.expired (search.clock result.tried) then { result with exhausted := false }
      else
        match candidates with
        | [] => result
        | candidate :: candidates =>
            if search.fails result.seen candidate.value then
              search.run fuel
                (search.root.candidates search.source candidate.value candidate.origin.nextLevel)
                (result.accept candidate)
            else search.run fuel candidates (result.pass candidate)

/-- Search for a smaller string that fails, beginning with a string that is expected to fail. -/
def find (search : CandidateSearch σ) (failing : String) : SearchResult :=
  let result := SearchResult.start failing
  if search.fails [] failing then
    search.run search.limits.maxIterations (search.root.candidates search.source failing 0) result
  else result

end CandidateSearch

/-- Search for a smaller string of the pattern that fails a test, beginning with the string that was
generated for a seed. -/
def Pattern.search (pattern : Pattern) (seed : Int) (failing : String) (limits : SearchLimits)
    (fails : FailureTest) (clock : Nat → Nat) : SearchResult :=
  CandidateSearch.find
    { root := pattern.root, source := Lcg.ofSeed seed, limits, fails, clock } failing

end Exemplar
