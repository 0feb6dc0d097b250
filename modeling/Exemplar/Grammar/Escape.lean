import Exemplar.CharSet.Property
import Exemplar.Grammar.Cursor

/-!
# Escapes

An escape is a backslash and what follows it. Inside and outside bracket expressions it may stand
for a character, for a set, or for a quoted text. The main statement is
`Advances.readEscape`: reading an escape gives no characters back.
-/

namespace Exemplar

/-- What an escape stands for: one character, any member of a set, or a text in which nothing has a
special meaning. -/
inductive Escape where
  | char (c : Char)
  | set (members : CharSet)
  | quoted (text : List Char)

namespace Escape

/-- The escapes for characters that are hard to type. -/
def controls : List (Char × Char) :=
  [('a', '\x07'), ('e', '\x1b'), ('f', '\x0c'), ('n', '\n'), ('r', '\r'), ('t', '\t')]

/-- The escapes for sets. -/
def sets : List (Char × CharSet) :=
  [('d', .digit), ('D', CharSet.digit.negate), ('w', .word), ('W', CharSet.word.negate),
   ('s', .space), ('S', CharSet.space.negate), ('h', .horizontalSpace),
   ('H', CharSet.horizontalSpace.negate), ('v', .verticalSpace),
   ('V', CharSet.verticalSpace.negate)]

/-- The value of a digit in a base of at most sixteen. -/
def digitValue? (base : Nat) (c : Char) : Option Nat :=
  let value? :=
    if '0' ≤ c ∧ c ≤ '9' then some (c.toNat - '0'.toNat)
    else if 'a' ≤ c ∧ c ≤ 'f' then some (c.toNat - 'a'.toNat + 10)
    else if 'A' ≤ c ∧ c ≤ 'F' then some (c.toNat - 'A'.toNat + 10)
    else none
  value?.filter (· < base)

/-- Whether the character is a digit in a base of at most sixteen. -/
def isDigit (base : Nat) (c : Char) : Bool :=
  (digitValue? base c).isSome

/-- The number that digits stand for in a base. -/
def numberOf (base : Nat) (digits : List Char) : Nat :=
  digits.foldl (fun value c ↦ value * base + (digitValue? base c).getD 0) 0

/-- The character with a given code point. -/
def charOf? (code : Nat) : Option Char :=
  if code.isValidChar then some (Char.ofNat code) else none

/-- Whether the code point is the first half of a surrogate pair. -/
def isHighSurrogate (code : Nat) : Bool :=
  0xD800 ≤ code && code < 0xDC00

/-- Whether the code point is the second half of a surrogate pair. -/
def isLowSurrogate (code : Nat) : Bool :=
  0xDC00 ≤ code && code < 0xE000

/-- The code point of a surrogate pair. -/
def joinSurrogates (high low : Nat) : Nat :=
  0x10000 + (high - 0xD800) * 0x400 + (low - 0xDC00)

/-- The text of a quotation, and the number of characters up to its end. -/
def quotation : List Char → List Char × Nat
  | '\\' :: 'E' :: _ => ([], 2)
  | c :: rest =>
      let (text, count) := quotation rest
      (c :: text, count + 1)
  | [] => ([], 0)

end Escape

namespace Reader

open Escape

/-- The character with a given code point, which may be no half of a surrogate pair. -/
def character (code start : Nat) : Reader Char :=
  match charOf? code with
  | some c => return c
  | none => fail .loneSurrogate start

/-- Take `count` hexadecimal digits after those that stand for `value`. -/
def hexadecimal (start : Nat) : (count : Nat) → (value : Nat) → Reader Nat
  | 0, value => return value
  | count + 1, value => do
      match (← next?).bind (digitValue? 16) with
      | some digit => hexadecimal start count (value * 16 + digit)
      | none => fail .badHexadecimal start

/-- Take one to three octal digits. There is a third one only after a first digit below four. -/
def octal (start : Nat) : Reader Char := do
  match (← get).rest.takeWhile (isDigit 8) with
  | [] => fail .badOctal start
  | first :: more =>
      let digits := first :: more.take (if first ≤ '3' then 2 else 1)
      modify (·.drop digits.length)
      character (numberOf 8 digits) start

/-- Take two hexadecimal digits, or any number of them in braces. -/
def hexadecimalEscape (start : Nat) : Reader Char := do
  if ← eat '{' then
    let digits ← takeWhile (isDigit 16)
    if numberOf 16 digits > 0x10FFFF then fail .codePointTooBig start
    else if digits.isEmpty then fail .unclosedHexadecimal start
    else if (← next?) = some '}' then character (numberOf 16 digits) start
    else fail .unclosedHexadecimal start
  else character (← hexadecimal start 2 0) start

/-- Take four hexadecimal digits, and another escape of this kind when they are the first half of a
surrogate pair. -/
def unicodeEscape (start : Nat) : Reader Char := do
  let high ← hexadecimal start 4 0
  match isHighSurrogate high, (← get).rest with
  | true, '\\' :: 'u' :: _ =>
      modify (·.drop 2)
      let low ← hexadecimal start 4 0
      if isLowSurrogate low then character (joinSurrogates high low) start
      else fail .loneSurrogate start
  | _, _ => character high start

/-- Take the character of a control escape. -/
def controlEscape (start : Nat) : Reader Char := do
  match (← next?).bind fun c ↦ charOf? (c.toNat ^^^ 64) with
  | some c => return c
  | none => fail .badControl start

/-- Take the name of a property: one character, or a text in braces. -/
def propertyName (start : Nat) : Reader String := do
  match ← next? with
  | some '{' =>
      let name ← takeWhile (· ≠ '}')
      if (← next?).isSome then return String.ofList name else fail .unclosedProperty start
  | some c => return String.ofList [c]
  | none => fail .missingProperty start

/-- Take a property name and look it up. -/
def property (start : Nat) : Reader CharSet := do
  let name ← propertyName start
  match CharSet.named? name with
  | some members => return members
  | none => fail (.unknownProperty name) start

/-- Take a quotation up to its end or to the end of the pattern. -/
def quotedText : Reader (List Char) := do
  let (text, count) := quotation (← get).rest
  modify (·.drop count)
  return text

/-- Read the escape that begins with a backslash at `start` and the character `mark`. -/
def readEscape (start : Nat) (mark : Char) : Reader Escape := do
  if let some c := controls.lookup mark then return .char c
  else if let some members := sets.lookup mark then return .set members
  else match mark with
    | '0' => return .char (← octal start)
    | 'c' => return .char (← controlEscape start)
    | 'x' => return .char (← hexadecimalEscape start)
    | 'u' => return .char (← unicodeEscape start)
    | 'p' => return .set (← property start)
    | 'P' => return .set (← property start).negate
    | 'Q' => return .quoted (← quotedText)
    | 'N' => fail .namedCharacter start
    | 'G' => fail .matchAnchor start
    | 'X' => fail .graphemeCluster start
    | c => if c.isAlphanum then fail .unknownEscape start else return .char c

namespace Advances

/-- The character of a code point takes no characters. -/
theorem character (code start : Nat) : Advances (Reader.character code start) := by
  unfold Reader.character
  split
  · exact pure _
  · exact fail ..

/-- Taking hexadecimal digits. -/
theorem hexadecimal (start count value : Nat) :
    Advances (Reader.hexadecimal start count value) := by
  induction count generalizing value with
  | zero => exact pure _
  | succ count ih =>
    refine next?.bind fun c ↦ ?_
    split
    · exact ih _
    · exact fail ..

/-- Taking octal digits. -/
theorem octal (start : Nat) : Advances (Reader.octal start) := by
  refine get.bind fun cursor ↦ ?_
  split
  · exact fail ..
  · exact (drop _).bind fun _ ↦ character ..

/-- Taking a hexadecimal escape. -/
theorem hexadecimalEscape (start : Nat) : Advances (Reader.hexadecimalEscape start) := by
  refine (eat '{').bind fun inBraces ↦ ?_
  split
  · refine (takeWhile _).bind fun digits ↦ ?_
    split
    · exact fail ..
    · split
      · exact fail ..
      · refine next?.bind fun c ↦ ?_
        split
        · exact character ..
        · exact fail ..
  · exact (hexadecimal ..).bind fun _ ↦ character ..

/-- Taking a Unicode escape. -/
theorem unicodeEscape (start : Nat) : Advances (Reader.unicodeEscape start) := by
  refine (hexadecimal ..).bind fun high ↦ get.bind fun cursor ↦ ?_
  split
  · refine (drop 2).bind fun _ ↦ (hexadecimal ..).bind fun low ↦ ?_
    split
    · exact character ..
    · exact fail ..
  · exact character ..

/-- Taking a control escape. -/
theorem controlEscape (start : Nat) : Advances (Reader.controlEscape start) := by
  refine next?.bind fun c ↦ ?_
  split
  · exact pure _
  · exact fail ..

/-- Taking a property name. -/
theorem propertyName (start : Nat) : Advances (Reader.propertyName start) := by
  refine next?.bind fun c ↦ ?_
  split
  · refine (takeWhile _).bind fun name ↦ next?.bind fun c ↦ ?_
    split
    · exact pure _
    · exact fail ..
  · exact pure _
  · exact fail ..

/-- Taking a property. -/
theorem property (start : Nat) : Advances (Reader.property start) := by
  refine (propertyName start).bind fun name ↦ ?_
  split
  · exact pure _
  · exact fail ..

/-- Taking a quotation. -/
theorem quotedText : Advances Reader.quotedText :=
  get.bind fun _ ↦ (drop _).bind fun _ ↦ pure _

/-- Reading an escape gives no characters back. -/
theorem readEscape (start : Nat) (mark : Char) : Advances (Reader.readEscape start mark) := by
  unfold Reader.readEscape
  split
  · exact pure _
  · split
    · exact pure _
    · split
      · exact (octal start).bind fun _ ↦ pure _
      · exact (controlEscape start).bind fun _ ↦ pure _
      · exact (hexadecimalEscape start).bind fun _ ↦ pure _
      · exact (unicodeEscape start).bind fun _ ↦ pure _
      · exact (property start).bind fun _ ↦ pure _
      · exact (property start).bind fun _ ↦ pure _
      · exact quotedText.bind fun _ ↦ pure _
      · exact fail ..
      · exact fail ..
      · exact fail ..
      · split
        · exact fail ..
        · exact pure _

end Advances

end Reader

end Exemplar
