import Exemplar.Pattern

/-!
# Batches

A batch generates one string for each of many seeds. Large batches are cut into pieces of equal
length that are generated at the same time. The strings come in the order of the seeds, and of
several errors the one of the earliest seed is reported. With checked arithmetic (`generateMany?`),
a fault in any of the pieces ends the batch.
-/

namespace Exemplar

/-- How a batch is spread over workers. `threads` is the number of workers, and `batchSize` is the
number of seeds from which on a batch is cut into pieces, if it may be cut at all. -/
structure BatchConfig where
  threads : Nat
  batchSize : Nat := 10
  parallel : Bool := true
  deriving DecidableEq, Repr, Inhabited

namespace BatchConfig

/-- There is a worker for each of the processors of the machine. -/
def ofProcessors (processors : Nat) : BatchConfig :=
  { threads := processors }

/-- There are as many workers as is asked for. -/
def withThreads (threads : Nat) : BatchConfig :=
  { threads }

/-- No batch is cut into pieces. -/
def sequential (processors : Nat) : BatchConfig :=
  { ofProcessors processors with parallel := false }

/-- Refuse numbers that cannot be met. -/
def validate (config : BatchConfig) : Except ConfigError Unit :=
  if config.threads = 0 then .error (.invalidThreads config.threads)
  else if config.batchSize = 0 then .error (.invalidBatchSize config.batchSize)
  else .ok ()

/-- Cut a list into pieces of the given length. The last piece may be shorter. -/
def pieces {α : Type} (size : Nat) (items : List α) : List (List α) :=
  if _h : items = [] ∨ size = 0 then (if items = [] then [] else [items])
  else items.take size :: pieces size (items.drop size)
termination_by items.length
decreasing_by
  have : items.length ≠ 0 := by simp_all
  simp only [List.length_drop]
  omega

end BatchConfig

namespace Pattern

/-- Generate the strings of the seeds one after the other. -/
def generateAll (pattern : Pattern) (target : Option Nat) (seeds : List Int) :
    Except GenerationError (List String) :=
  seeds.mapM (pattern.generate · target)

/-- Generate the strings of the seeds, in pieces at the same time where the configuration says
so. -/
def generateMany (pattern : Pattern) (target : Option Nat) (config : BatchConfig)
    (seeds : List Int) : Except GenerationError (List String) :=
  if config.parallel = false ∨ config.threads ≤ 1 ∨ seeds.length < config.batchSize then
    pattern.generateAll target seeds
  else
    let workers := min config.threads seeds.length
    let size := (seeds.length + workers - 1) / workers
    let tasks := (BatchConfig.pieces size seeds).map fun piece ↦
      Task.spawn fun _ ↦ pattern.generateAll target piece
    (tasks.mapM Task.get).map (·.flatten)

/-- Generate the strings of the seeds one after the other with checked arithmetic, until there is an
error or a fault. -/
def generateAll? (pattern : Pattern) (target : Option Nat) :
    List Int → Option (Except GenerationError (List String))
  | [] => some (.ok [])
  | seed :: seeds => do
      match ← pattern.generate? seed target with
      | .error error => return .error error
      | .ok value => return (← pattern.generateAll? target seeds).map (value :: ·)

/-- Generate the strings of the seeds with checked arithmetic, in pieces at the same time where the
configuration says so. All pieces are waited for. -/
def generateMany? (pattern : Pattern) (target : Option Nat) (config : BatchConfig)
    (seeds : List Int) : Option (Except GenerationError (List String)) :=
  if config.parallel = false ∨ config.threads ≤ 1 ∨ seeds.length < config.batchSize then
    pattern.generateAll? target seeds
  else do
    let workers := min config.threads seeds.length
    let size := (seeds.length + workers - 1) / workers
    let tasks := (BatchConfig.pieces size seeds).map fun piece ↦
      Task.spawn fun _ ↦ pattern.generateAll? target piece
    return ((← tasks.mapM Task.get).mapM id).map (·.flatten)

end Pattern

end Exemplar
