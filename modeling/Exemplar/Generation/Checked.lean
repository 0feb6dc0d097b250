import Exemplar.Generation.Emit

/-!
# Generating a string with checked arithmetic

A step of a generation with checked arithmetic ends with a fault where an operation on sizes has no
result. It draws and writes what the step with wrapped arithmetic does, until it meets a fault.
This is the generation that runs, and a fault ends the whole program.

The length of the output is a count of characters that are there, and it is not checked.
-/

namespace Exemplar

variable {σ α : Type}

/-- What ends a checked generation early: an operation on sizes that has no result, or a failure of
the generation itself. -/
inductive Failure where
  | fault
  | failed (error : GenerationError)
  deriving DecidableEq

/-- A step of a generation with checked arithmetic. -/
abbrev CheckedGenerator (σ : Type) := EStateM Failure (Draft σ)

/-- A step without operations on sizes as a checked one. -/
def Generator.checked (step : Generator σ α) : CheckedGenerator σ α :=
  step.adaptExcept .failed

namespace CheckedGenerator

/-- What an operation on sizes finds, or a fault. -/
def ofOption : Option α → CheckedGenerator σ α
  | some value => return value
  | none => throw .fault

/-- Run a step and count the characters that it writes. -/
def measure (step : CheckedGenerator σ Unit) : CheckedGenerator σ Nat := do
  let before ← Generator.length.checked
  step
  ofOption (Size.sub? (← Generator.length.checked) before)

/-- Run a step and keep the text that it writes under several groups. -/
def capturing (ids : List GroupId) (step : CheckedGenerator σ Unit) :
    CheckedGenerator σ Unit := do
  let before ← Generator.length.checked
  step
  modify fun draft ↦
    let text := (draft.output.extract before draft.output.size).toList
    { draft with
      captures := ids.foldl (fun captures id ↦ captures.record id text) draft.captures }

/-- Draw a number of copies between the least number and the limit. -/
def drawCount [RandomSource σ] (least limit : Nat) : CheckedGenerator σ Nat :=
  if limit > least then do
    let bound ← ofOption (Size.add? limit 1)
    (Generator.drawBetween least bound).checked
  else return least

/-- Write `count` copies of a body that has the least length `least`. -/
def copies (emit : Option Nat → CheckedGenerator σ Unit) (least : Nat) :
    (count : Nat) → Option Nat → CheckedGenerator σ Unit
  | 0, _ => return
  | count + 1, budget => do
      let each ← ofOption (budget.mapM (Extent.copyBudget? least (count + 1)))
      let written ← measure (emit each)
      copies emit least count (budget.map (· - written))

end CheckedGenerator

namespace Regex

open CheckedGenerator

mutual
/-- Write a string of the tree with checked arithmetic. -/
def emit? [RandomSource σ] : Regex → Option Nat → CheckedGenerator σ Unit
  | sequence parts, budget => emitParts? parts budget
  | choice options, budget => do
      let index ← (Generator.drawBetween 0 options.length).checked
      emitOption? options index budget
  | repetition body least most _, budget => do
      let limit ← ofOption (body.extent.mostCopies? least most budget)
      let count ← drawCount least limit
      copies (fun budget ↦ emit? body budget) body.minLength count budget
  | group (.capturing number name) body, budget =>
      capturing (groupIds number name) (emit? body budget)
  | group .plain body, budget => emit? body budget
  | group .atomic body, budget => emit? body budget
  | tree, budget => (emit tree budget).checked

/-- Write the parts of a sequence with checked arithmetic. -/
def emitParts? [RandomSource σ] : List Regex → Option Nat → CheckedGenerator σ Unit
  | [], _ => return
  | part :: parts, budget => do
      let share ← ofOption (budget.mapM (Extent.firstBudget? (part.extent :: extents parts)))
      let written ← measure (emit? part share)
      emitParts? parts (budget.map (· - written))

/-- Write the option with the given number with checked arithmetic. -/
def emitOption? [RandomSource σ] : List Regex → Nat → Option Nat → CheckedGenerator σ Unit
  | [], _, _ => return
  | option :: _, 0, budget => emit? option budget
  | _ :: options, index + 1, budget => emitOption? options index budget
end

/-- The tree from which a string is generated, sized with checked arithmetic if there is a
target. -/
def towards? (tree : Regex) : Option Nat → Option Regex
  | some target => tree.sized? target
  | none => some tree

/-- Generate a string of the tree with checked arithmetic, unless there is a fault on the way. -/
def generate? [RandomSource σ] (tree : Regex) (source : σ) (target : Option Nat) :
    Option (Except GenerationError (String × σ)) := do
  let tree ← tree.towards? target
  match (tree.emit? target).run { source } with
  | .ok _ draft => some (.ok (draft.text, draft.source))
  | .error (.failed error) _ => some (.error error)
  | .error .fault _ => none

end Regex

end Exemplar
