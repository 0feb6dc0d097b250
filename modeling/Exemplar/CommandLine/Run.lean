import Exemplar.Batch
import Exemplar.CommandLine.Arguments
import Exemplar.CommandLine.Outline
import Exemplar.Json
import Exemplar.Shrink.Checked

/-!
# Running commands

`run` is the whole program as a function: from the number of processors, a seed for strings whose
seed is not given, and the arguments, to the exit code and the two output texts. Strings are
generated with checked arithmetic, and a fault ends the program with an exit code of its own.
-/

namespace Exemplar.CommandLine

/-- What a run leaves behind: its exit code, its output and its messages. -/
structure Outcome where
  code : Nat
  stdout : String
  stderr : String
  deriving DecidableEq, Repr, Inhabited

/-- A reason why a run failed, with what was being done. -/
structure Failure where
  context : String
  cause : String
  deriving DecidableEq, Repr, Inhabited

namespace Failure

/-- The text of a failure, where the lines of the reason are indented. -/
def message (failure : Failure) : String :=
  let cause := failure.cause.toList.flatMap fun c ↦ if c = '\n' then "\n    ".toList else [c]
  s!"Error: {failure.context}\n\nCaused by:\n    " ++ String.ofList cause ++ "\n"

end Failure

/-- Name what is being done. -/
def within {ε α : Type} (context : String) (message : ε → String) (result : Except ε α) :
    Except Failure α :=
  result.mapError fun error ↦ ⟨context, message error⟩

/-- A command that may fail, or end early with a fault. -/
abbrev Action := ExceptT Failure Option

/-- Name what is being done, where there may be a fault. -/
def attempt {ε α : Type} (context : String) (message : ε → String)
    (result? : Option (Except ε α)) : Action α :=
  ExceptT.mk (result?.map (within context message))

/-- Lines of text, each of them ended. -/
def lines (texts : List String) : String :=
  String.join (texts.map (· ++ "\n"))

/-- A list of strings as JSON. -/
def jsonStrings (texts : List String) : Json :=
  .array (texts.map .string)

/-- The seeds of a batch: consecutive numbers of 64 bits. -/
def seeds (first : Int) (count : Nat) : List Int :=
  if count < 0x8000000000000000 then
    (List.range count).map fun (index : Nat) ↦ RandomSource.wrapWord (first + index)
  else []

/-- Generate strings one after the other from a source. -/
def generateChain? {σ : Type} [RandomSource σ] (pattern : Pattern) (target : Nat) :
    (count : Nat) → σ → Option (Except GenerationError (List String))
  | 0, _ => some (.ok [])
  | count + 1, source => do
      match ← pattern.generateFrom? source (some target) with
      | .ok (value, next) => return (← generateChain? pattern target count next).map (value :: ·)
      | .error error => return .error error

/-- The strings of the command for generation. -/
def valuesOf (processors : Nat) (entropy : Int) (pattern : Pattern) (seed : Option Int)
    (length count : Nat) (threads : Option Nat) : Action (List String) := do
  match seed with
  | some seed =>
      let config := match threads with
        | some threads => BatchConfig.withThreads threads
        | none => .ofProcessors processors
      within "Invalid --threads value" ConfigError.message config.validate
      attempt "Failed to generate values" GenerationError.message
        (pattern.generateMany? (some length) config (seeds seed count))
  | none =>
      attempt "Failed to generate value" GenerationError.message
        (generateChain? pattern length count (Lcg.ofSeed entropy))

/-- The output of the command for smaller strings. -/
def showCandidates (failing : String) (candidates : List String) : String :=
  let list :=
    if candidates.isEmpty then ["No smaller candidates."]
    else
      s!"{candidates.length} candidate(s):" ::
        candidates.map fun value ↦ s!"  → {value} (len {value.length})"
  lines (s!"Failing: {failing}" :: list)

/-- Run a command on a pattern that was read. -/
def Command.run (processors : Nat) (entropy : Int) (pattern : Pattern) : Command → Action String
  | generate seed length count threads json => do
      let values ← valuesOf processors entropy pattern seed length count threads
      if json then
        return lines [(Json.object
          [("pattern", .string pattern.source), ("seed", .ofOption seed),
           ("length", .number length), ("values", jsonStrings values)]).render]
      else return lines values
  | shrink seed length limit json => do
      let failing ← attempt "Failed to generate value" GenerationError.message
        (pattern.generate? seed (some length))
      let found ← (pattern.candidateStream seed failing).take? limit
      let candidates := found.map (·.value)
      if json then
        return lines [(Json.object
          [("pattern", .string pattern.source), ("seed", .number seed),
           ("failing", .string failing), ("candidates", jsonStrings candidates)]).render]
      else return showCandidates failing candidates
  | bounds json =>
      if json then
        return lines [(Json.object
          [("pattern", .string pattern.source), ("min_length", .number pattern.minLength),
           ("max_length", .ofOption
             (pattern.maxLength.finite?.map fun (limit : Nat) ↦ limit))]).render]
      else
        return lines
          [s!"Min length: {pattern.minLength}", s!"Max length: {pattern.maxLength}"]
  | ast => return lines (s!"Rendered: {pattern.root}" :: "" :: outline 0 pattern.root)

/-- The version. -/
def versionText : String := "regen 0.1.0"

/-- The options. -/
def helpText : String :=
  lines
    ["Generate and shrink strings that match a pattern", "",
     "Commands: generate, shrink, bounds, ast",
     "Options: --flags, --seed, --length, --count, --threads, --limit, --json, --version"]

/-- Run what a command line asks for. -/
def Invocation.run (processors : Nat) (entropy : Int) : Invocation → Action String
  | notice .help => return helpText
  | notice .version => return lines [versionText]
  | command action source letters => do
      let flags ← within "Invalid --flags value" ConfigError.message (Flags.ofLetters letters)
      let pattern ← within s!"Failed to compile pattern '{source}'"
        (fun error : CompileError ↦ error.diagnostic.message) (Pattern.compile source flags)
      action.run processors entropy pattern

/-- The whole program. A command line that cannot be read ends with code 2, a failure with code 1,
and a fault with code 101. -/
def run (processors : Nat) (entropy : Int) (arguments : List String) : Outcome :=
  match Invocation.ofArguments arguments with
  | .error error => ⟨2, "", s!"error: {error.message}\n"⟩
  | .ok invocation =>
      match (invocation.run processors entropy).run with
      | some (.ok output) => ⟨0, output, ""⟩
      | some (.error failure) => ⟨1, "", failure.message⟩
      | none => ⟨101, "", "error: a size is out of range\n"⟩

end Exemplar.CommandLine
