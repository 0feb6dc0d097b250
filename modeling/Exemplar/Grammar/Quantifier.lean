import Exemplar.Grammar.Escape
import Exemplar.Regex.Basic

/-!
# Repetition marks

A unit of a pattern may be followed by a mark that says how often it is repeated, and by a second
mark for the mode of the repetition.
-/

namespace Exemplar

/-- How often and in which mode a unit is repeated: at least `least` times, and as often as the
bound `most` allows. -/
structure Quantifier where
  least : Nat
  most : Bound
  mode : RepetitionMode
  deriving DecidableEq, Repr, Inhabited

namespace Quantifier

/-- The largest count that can be written. -/
def largestCount : Nat := 0x7FFFFFFF

/-- Repeat a unit. Of a quoted text only the last character is repeated. -/
def apply (quantifier : Quantifier) : Regex → Regex
  | .literal text ignoreCase =>
      if text.length > 1 then
        .sequence
          [.ofText text.dropLast ignoreCase,
           .repeated (.ofText (text.drop (text.length - 1)) ignoreCase) quantifier.least
             quantifier.most quantifier.mode]
      else
        .repeated (.literal text ignoreCase) quantifier.least quantifier.most quantifier.mode
  | unit => .repeated unit quantifier.least quantifier.most quantifier.mode

end Quantifier

namespace Reader

/-- Take the digits of a count, if there are any. -/
def count : Reader (Option Nat) := do
  let start ← position
  let digits ← takeWhile (Escape.isDigit 10)
  if Escape.numberOf 10 digits > Quantifier.largestCount then fail .countOutOfRange start
  else if digits.isEmpty then return none
  else return some (Escape.numberOf 10 digits)

/-- Read what follows the least count: a comma, and the largest count if there is one. -/
def upperCount (least : Nat) : Reader Bound := do
  if ← eat ',' then
    match ← count with
    | some most => return .ofExact most
    | none => return .unbounded
  else return .ofExact least

/-- Read the counts in braces, behind an opening brace at `start`. No blanks are allowed here. -/
def counts (start : Nat) : Reader (Nat × Bound) := do
  match ← count with
  | none => fail .missingCount start
  | some least =>
      let most ← upperCount least
      if ← eat '}' then
        if most.Allows least then return (least, most) else fail .countOutOfRange start
      else fail .unclosedCounts (← position)

/-- Read how often a unit is repeated, behind a mark at `start`. -/
def copies (mark : Char) (start : Nat) : Reader (Nat × Bound) :=
  match mark with
  | '*' => return (0, .unbounded)
  | '+' => return (1, .unbounded)
  | '?' => return (0, 1)
  | _ => counts start

/-- Read the mode of a repetition. -/
def mode (comments : Bool) : Reader RepetitionMode := do
  skip comments
  if ← eat '?' then return .reluctant
  else if ← eat '+' then return .possessive
  else return .greedy

/-- Read a repetition that begins with a mark at `start`, behind that mark. -/
def quantifier (comments : Bool) (mark : Char) (start : Nat) : Reader Quantifier := do
  let (least, most) ← copies mark start
  return ⟨least, most, ← mode comments⟩

/-- Read a repetition, if the next character begins one. -/
def quantifier? (comments : Bool) : Reader (Option Quantifier) := do
  skip comments
  let start ← position
  match ← peek? with
  | none => return none
  | some mark =>
      if mark ∈ ['*', '+', '?', '{'] then
        modify (·.drop 1)
        return some (← quantifier comments mark start)
      else return none

namespace Advances

/-- Taking a count. -/
theorem count : Advances Reader.count := by
  refine position.bind fun start ↦ (takeWhile _).bind fun digits ↦ ?_
  split
  · exact fail ..
  · split
    · exact pure _
    · exact pure _

/-- Reading the largest count. -/
theorem upperCount (least : Nat) : Advances (Reader.upperCount least) := by
  refine (eat ',').bind fun comma ↦ ?_
  split
  · refine count.bind fun most ↦ ?_
    split <;> exact pure _
  · exact pure _

/-- Reading counts in braces. -/
theorem counts (start : Nat) : Advances (Reader.counts start) := by
  refine count.bind fun least ↦ ?_
  split
  · exact fail ..
  · refine (upperCount _).bind fun most ↦ (eat _).bind fun brace ↦ ?_
    split
    · split
      · exact pure _
      · exact fail ..
    · exact position.bind fun _ ↦ fail ..

/-- Reading how often a unit is repeated. -/
theorem copies (mark : Char) (start : Nat) : Advances (Reader.copies mark start) := by
  unfold Reader.copies
  split
  · exact pure _
  · exact pure _
  · exact pure _
  · exact counts start

/-- Reading the mode of a repetition. -/
theorem mode (comments : Bool) : Advances (Reader.mode comments) := by
  refine (skip comments).bind fun _ ↦ (eat _).bind fun reluctant ↦ ?_
  split
  · exact pure _
  · refine (eat _).bind fun possessive ↦ ?_
    split <;> exact pure _

/-- Reading a repetition. -/
theorem quantifier (comments : Bool) (mark : Char) (start : Nat) :
    Advances (Reader.quantifier comments mark start) :=
  (copies ..).bind fun _ ↦ (mode comments).bind fun _ ↦ pure _

/-- Reading a repetition, if there is one. -/
theorem quantifier? (comments : Bool) : Advances (Reader.quantifier? comments) := by
  refine (skip comments).bind fun _ ↦ position.bind fun start ↦ peek?.bind fun mark ↦ ?_
  split
  · exact pure _
  · split
    · exact (drop 1).bind fun _ ↦ (quantifier ..).bind fun _ ↦ pure _
    · exact pure _

end Advances

end Reader

end Exemplar
