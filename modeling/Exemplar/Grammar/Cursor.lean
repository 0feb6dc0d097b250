import Exemplar.Grammar.Fault

/-!
# Reading a pattern character by character

A `Cursor` is the rest of a pattern with the number of characters before it. A `Reader` takes
characters from the rest, or refuses the pattern. `Advances reader` says that a reader never gives
characters back, and holds of a compound reader when it holds of its parts.
-/

namespace Exemplar

/-- What is left of a pattern, and the number of characters before it. -/
structure Cursor where
  rest : List Char
  position : Nat
  deriving DecidableEq, Repr, Inhabited

namespace Cursor

/-- The cursor at the start of a pattern. -/
def start (pattern : List Char) : Cursor := ⟨pattern, 0⟩

/-- The cursor `count` characters further on. -/
def drop (cursor : Cursor) (count : Nat) : Cursor :=
  ⟨cursor.rest.drop count, cursor.position + count⟩

/-- Whether the character is a blank of ASCII. -/
def isBlank (c : Char) : Bool :=
  c = ' ' || (0x09 ≤ c.toNat && c.toNat ≤ 0x0D)

/-- Skip what does not count: an empty quotation, and with `comments` also blanks and comments,
which run from a number sign to the end of the line. -/
def skipFrom (comments : Bool) : (inComment : Bool) → List Char → Nat → Cursor
  | true, [], position => ⟨[], position⟩
  | true, c :: rest, position => skipFrom comments (c ≠ '\n') rest (position + 1)
  | false, '\\' :: 'Q' :: '\\' :: 'E' :: rest, position =>
      skipFrom comments false rest (position + 4)
  | false, c :: rest, position =>
      if comments && isBlank c then skipFrom comments false rest (position + 1)
      else if comments && c = '#' then skipFrom comments true rest (position + 1)
      else ⟨c :: rest, position⟩
  | false, [], position => ⟨[], position⟩

/-- The cursor at the next character that counts. -/
def skip (comments : Bool) (cursor : Cursor) : Cursor :=
  skipFrom comments false cursor.rest cursor.position

/-- Skipping gives no characters back. -/
theorem skipFrom_rest_length_le (comments inComment : Bool) (rest : List Char) (position : Nat) :
    (skipFrom comments inComment rest position).rest.length ≤ rest.length := by
  fun_induction skipFrom comments inComment rest position <;> grind

/-- Skipping gives no characters back. -/
theorem skip_rest_length_le (comments : Bool) (cursor : Cursor) :
    (cursor.skip comments).rest.length ≤ cursor.rest.length :=
  skipFrom_rest_length_le ..

end Cursor

/-- A step that takes characters from a pattern, or refuses it. -/
abbrev Reader := StateT Cursor (Except Located)

namespace Reader

variable {α β : Type}

/-- Refuse the pattern because of a fault at the given position. -/
def fail (fault : Fault) (position : Nat) : Reader α :=
  throw ⟨fault, position⟩

/-- The number of characters taken so far. -/
def position : Reader Nat :=
  return (← get).position

/-- The next character, which is left where it is. -/
def peek? : Reader (Option Char) :=
  return (← get).rest.head?

/-- Take the next character. -/
def next? : Reader (Option Char) := do
  match (← get).rest with
  | [] => return none
  | c :: _ =>
      modify (·.drop 1)
      return some c

/-- Take the next character if it is the given one. -/
def eat (expected : Char) : Reader Bool := do
  if (← peek?) = some expected then
    modify (·.drop 1)
    return true
  else return false

/-- Take the longest run of characters with a property. -/
def takeWhile (accepts : Char → Bool) : Reader (List Char) := do
  let taken := (← get).rest.takeWhile accepts
  modify (·.drop taken.length)
  return taken

/-- Move on to the next character that counts. -/
def skip (comments : Bool) : Reader Unit :=
  modify (·.skip comments)

/-- `Advances reader` says that the reader never gives characters back: what is left afterwards is
no longer than what was left before. -/
structure Advances (reader : Reader α) : Prop where
  rest_length_le {cursor next : Cursor} {result : α} :
    reader.run cursor = .ok (result, next) → next.rest.length ≤ cursor.rest.length

namespace Advances

/-- A result takes no characters. -/
theorem pure (result : α) : Advances (Pure.pure result : Reader α) := by
  refine ⟨fun h ↦ ?_⟩
  cases h
  exact Nat.le_refl _

/-- Reading on after a reader. -/
theorem bind {reader : Reader α} {continuation : α → Reader β} (hreader : Advances reader)
    (hcontinuation : ∀ result, Advances (continuation result)) :
    Advances (reader >>= continuation) := by
  refine ⟨fun {cursor next value} h ↦ ?_⟩
  rw [StateT.run_bind] at h
  cases hrun : reader.run cursor with
  | error located => simp [hrun, Bind.bind, Except.bind] at h
  | ok outcome =>
    obtain ⟨result, middle⟩ := outcome
    simp only [hrun, Bind.bind, Except.bind] at h
    exact Nat.le_trans ((hcontinuation result).rest_length_le h) (hreader.rest_length_le hrun)

/-- A refusal takes no characters. -/
theorem fail (fault : Fault) (position : Nat) :
    Advances (Reader.fail fault position : Reader α) := by
  exact ⟨fun h ↦ nomatch h⟩

/-- A change of the cursor that keeps what is left or shortens it. -/
theorem change {move : Cursor → Cursor}
    (h : ∀ cursor, (move cursor).rest.length ≤ cursor.rest.length) :
    Advances (modify move : Reader Unit) := by
  refine ⟨fun {cursor next value} hrun ↦ ?_⟩
  cases hrun
  exact h cursor

/-- Looking at the cursor takes no characters. -/
theorem get : Advances (MonadState.get : Reader Cursor) := by
  refine ⟨fun h ↦ ?_⟩
  cases h
  exact Nat.le_refl _

/-- Moving on by a number of characters. -/
theorem drop (count : Nat) : Advances (modify (·.drop count) : Reader Unit) :=
  change fun cursor ↦ by simp [Cursor.drop]

/-- Looking at the position takes no characters. -/
theorem position : Advances Reader.position :=
  get.bind fun _ ↦ pure _

/-- Looking at the next character does not take it. -/
theorem peek? : Advances Reader.peek? :=
  get.bind fun _ ↦ pure _

/-- Taking the next character. -/
theorem next? : Advances Reader.next? := by
  refine get.bind fun cursor ↦ ?_
  split
  · exact pure _
  · exact (drop 1).bind fun _ ↦ pure _

/-- Taking the next character if it is the given one. -/
theorem eat (expected : Char) : Advances (Reader.eat expected) := by
  refine peek?.bind fun c ↦ ?_
  split
  · exact (drop 1).bind fun _ ↦ pure _
  · exact pure _

/-- Taking a run of characters. -/
theorem takeWhile (accepts : Char → Bool) : Advances (Reader.takeWhile accepts) :=
  get.bind fun _ ↦ (drop _).bind fun _ ↦ pure _

/-- Moving on to the next character that counts. -/
theorem skip (comments : Bool) : Advances (Reader.skip comments) :=
  change (Cursor.skip_rest_length_le comments)

end Advances

end Reader

end Exemplar
