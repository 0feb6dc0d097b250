import Exemplar.CharSet.Members
import Exemplar.Random.Source

/-!
# Drafts

A `Draft` is what a generation has reached: a random source, the text that was written so far, and
the text that each group captured last. A step of a generation that fails keeps its draft.
-/

namespace Exemplar

/-- The texts that groups captured last. -/
abbrev Captures := List (GroupId × List Char)

namespace Captures

/-- The text that a group captured last. -/
def find? (captures : Captures) (id : GroupId) : Option (List Char) :=
  captures.lookup id

/-- Keep the text that a group captured now. -/
def record (captures : Captures) (id : GroupId) (text : List Char) : Captures :=
  (id, text) :: captures.filter (·.1 != id)

/-- The group that just captured has its new text. -/
@[simp] theorem find?_record_self (captures : Captures) (id : GroupId) (text : List Char) :
    (captures.record id text).find? id = some text := by
  simp [find?, record]

/-- Other groups keep their texts. -/
theorem find?_record_of_ne {captures : Captures} {id other : GroupId} {text : List Char}
    (h : other ≠ id) : (captures.record id text).find? other = captures.find? other := by
  have hne : (other == id) = false := by simpa using h
  simp only [find?, record, List.lookup_cons, hne]
  induction captures with
  | nil => rfl
  | cons entry captures ih =>
    obtain ⟨key, value⟩ := entry
    by_cases hkey : key = id
    · subst hkey
      simp [List.lookup_cons, hne, ih]
    · have : (key != id) = true := by simpa using hkey
      simp [this, List.lookup_cons, ih]

end Captures

/-- What a generation has reached: the source of the next draw, the texts that groups captured
last, and the text written so far. -/
structure Draft (σ : Type) where
  source : σ
  captures : Captures := []
  output : Array Char := #[]

/-- A step of a generation. It may fail, and then keeps the draft that it had reached. -/
abbrev Generator (σ : Type) := EStateM GenerationError (Draft σ)

namespace Draft

variable {σ : Type}

/-- The number of characters written so far. -/
def length (draft : Draft σ) : Nat :=
  draft.output.size

/-- The text written so far. -/
def text (draft : Draft σ) : String :=
  String.ofList draft.output.toList

/-- The text that a group captured last. -/
def capture? (draft : Draft σ) (id : GroupId) : Option String :=
  (draft.captures.find? id).map String.ofList

end Draft

namespace Generator

variable {σ : Type}

/-- Draw a number of 64 bits. -/
def drawWord [RandomSource σ] : Generator σ Int :=
  modifyGet fun draft ↦
    let (value, next) := RandomSource.drawWord draft.source
    (value, { draft with source := next })

/-- Draw a number from `low` up to, but without, `high`. -/
def drawBetween [RandomSource σ] (low high : Nat) : Generator σ Nat :=
  modifyGet fun draft ↦
    let (value, next) := RandomSource.drawBetween low high draft.source
    (value, { draft with source := next })

/-- Write a character. -/
def push (c : Char) : Generator σ Unit :=
  modify fun draft ↦ { draft with output := draft.output.push c }

/-- Write a text. -/
def append (text : List Char) : Generator σ Unit :=
  modify fun draft ↦ { draft with output := draft.output ++ text }

/-- The number of characters written so far. -/
def length : Generator σ Nat :=
  return (← get).output.size

/-- Run a step and count the characters that it writes. -/
def measure (step : Generator σ Unit) : Generator σ Nat := do
  let before ← length
  step
  return (← length) - before

/-- Run a step and keep the text that it writes under several groups. -/
def capturing (ids : List GroupId) (step : Generator σ Unit) : Generator σ Unit := do
  let before ← length
  step
  modify fun draft ↦
    let text := (draft.output.extract before draft.output.size).toList
    { draft with
      captures := ids.foldl (fun captures id ↦ captures.record id text) draft.captures }

/-- Draw a member of a set and write it. -/
def pushMember [RandomSource σ] (set : CharSet) : Generator σ Unit := do
  let seed ← drawWord
  match set.sample seed with
  | .ok c => push c
  | .error error => throw error

/-- Write the text that a group captured last. -/
def repeatCapture (id : GroupId) : Generator σ Unit := do
  match (← get).captures.find? id with
  | some text => append text
  | none => throw (.unresolved id)

end Generator

end Exemplar
