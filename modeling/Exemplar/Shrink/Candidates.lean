import Exemplar.CharSet.Narrow
import Exemplar.Pattern

/-!
# Smaller strings

A string that fails a test is easier to understand when it is small. Candidates for a smaller string
of the same pattern are generated from the same source. First come strings for growing length
targets below the failing length, then strings of the same length from simpler alphabets. Here
their sizes are computed with wrapped arithmetic; the stream of candidates that runs checks them.
-/

namespace Exemplar

/-- How a candidate was found: with a smaller length target, or with every set narrowed to a
level. -/
inductive CandidateOrigin where
  | length (target : Nat)
  | narrowed (level : Nat)
  deriving DecidableEq, Repr, Inhabited

/-- A string that may be smaller than the failing one, and how it was found. -/
structure Candidate where
  value : String
  origin : CandidateOrigin
  deriving DecidableEq, Repr, Inhabited

namespace Candidate

/-- The targets from `target` on, each one more than twice the one before, below `limit`. -/
def targets (limit target : Nat) : List Nat :=
  if target < limit then target :: targets limit (2 * target + 1) else []
termination_by limit - target

/-- Keep the strings that are shorter than `limit` and differ from the one kept before. -/
def ofTargets (attempt : Nat → Option String) (limit : Nat) :
    (last : Option String) → (targets : List Nat) → List Candidate
  | _, [] => []
  | last, target :: targets =>
      match attempt target with
      | some value =>
          if value.length < limit ∧ last ≠ some value then
            ⟨value, .length target⟩ :: ofTargets attempt limit (some value) targets
          else ofTargets attempt limit last targets
      | none => ofTargets attempt limit last targets

/-- The candidates with smaller length targets. -/
def byLength {σ : Type} [RandomSource σ] (root : Regex) (source : σ) (failing : String) :
    List Candidate :=
  ofTargets (fun target ↦ ((root.generate source (some target)).map (·.1)).toOption)
    failing.length none (targets failing.length root.minLength)

/-- The candidate from sets narrowed to a level, if that changes the tree and the string. -/
def atLevel? {σ : Type} [RandomSource σ] (root : Regex) (source : σ) (failing : String)
    (level : Nat) : Option Candidate :=
  let narrowed := root.mapSets (·.narrow level)
  if narrowed = root then none
  else
    match narrowed.generate source (some failing.length) with
    | .ok (value, _) =>
        if value ≠ failing ∧ value.length ≤ failing.length then
          some ⟨value, .narrowed level⟩
        else none
    | .error _ => none

/-- The candidates from narrowed sets, from a level on. -/
def byLevel {σ : Type} [RandomSource σ] (root : Regex) (source : σ) (failing : String)
    (level : Nat) : List Candidate :=
  ((List.range CharSet.levelCount).drop level).filterMap (atLevel? root source failing)

end Candidate

/-- The candidates for a failing string that a tree generated from a source: first those with
smaller length targets, then those from sets narrowed to `level` and further. -/
def Regex.candidates {σ : Type} [RandomSource σ] (root : Regex) (source : σ) (failing : String)
    (level : Nat) : List Candidate :=
  Candidate.byLength root source failing ++ Candidate.byLevel root source failing level

/-- The candidates for a failing string that the pattern generated for a seed. -/
def Pattern.candidates (pattern : Pattern) (seed : Int) (failing : String) : List Candidate :=
  pattern.root.candidates (Lcg.ofSeed seed) failing 0

end Exemplar
