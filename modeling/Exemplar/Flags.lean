import Exemplar.ConfigError
import Exemplar.Size

/-!
# Flags

The seven switches under which a pattern is read. They are written as letters, on the command line
and inside a pattern, and they have a numeric form with one bit for each.
-/

namespace Exemplar

/-- The switches under which a pattern is read. With `ignoreCase`, letters stand for both of their
cases, which are those of Unicode with `unicodeCase` and those of ASCII alone without it. With
`unixLines`, only the line feed ends a line, with `multiline`, the anchors hold at every line, and
with `dotAll`, the dot stands for line ends too. With `comments`, blanks and comments in the
pattern do not count, and with `literal`, the pattern is plain text. -/
structure Flags where
  ignoreCase : Bool := false
  unixLines : Bool := false
  multiline : Bool := false
  dotAll : Bool := false
  unicodeCase : Bool := false
  comments : Bool := false
  literal : Bool := false
  deriving DecidableEq, Repr, Inhabited

namespace Flags

/-- No switch is on. -/
def none : Flags := {}

/-- Decide each switch from its two settings. -/
def combine (rule : Bool → Bool → Bool) (first second : Flags) : Flags where
  ignoreCase := rule first.ignoreCase second.ignoreCase
  unixLines := rule first.unixLines second.unixLines
  multiline := rule first.multiline second.multiline
  dotAll := rule first.dotAll second.dotAll
  unicodeCase := rule first.unicodeCase second.unicodeCase
  comments := rule first.comments second.comments
  literal := rule first.literal second.literal

/-- The switches that are on in either. -/
def union (first second : Flags) : Flags :=
  combine (· || ·) first second

/-- The switches that are on in the first only. -/
def without (first second : Flags) : Flags :=
  combine (fun kept dropped ↦ kept && !dropped) first second

/-- Whether every switch of the second is on in the first. -/
def contains (first second : Flags) : Bool :=
  union first second == first

/-- The bit of each switch, with the letter that names it, in the order in which letters are
written. -/
def entries (flags : Flags) : List (Bool × Nat × Char) :=
  [(flags.ignoreCase, 0x02, 'i'), (flags.unixLines, 0x01, 'd'), (flags.multiline, 0x08, 'm'),
   (flags.dotAll, 0x20, 's'), (flags.unicodeCase, 0x40, 'u'), (flags.comments, 0x04, 'x'),
   (flags.literal, 0x10, 'l')]

/-- The numeric form: the sum of the bits that are on. -/
def bits (flags : Flags) : Nat :=
  Size.total ((flags.entries.filter (·.1)).map (·.2.1))

/-- The switches of a numeric form, without regard to other bits. -/
def ofBits (bits : Nat) : Flags where
  ignoreCase := bits.testBit 1
  unixLines := bits.testBit 0
  multiline := bits.testBit 3
  dotAll := bits.testBit 5
  unicodeCase := bits.testBit 6
  comments := bits.testBit 2
  literal := bits.testBit 4

/-- The letters of the switches that are on. -/
def letters (flags : Flags) : String :=
  String.ofList ((flags.entries.filter (·.1)).map (·.2.2))

instance : ToString Flags := ⟨letters⟩

/-- Whether no switch is on. -/
def isEmpty (flags : Flags) : Bool :=
  flags == none

/-- The switch of a letter that may stand inside a pattern. -/
def ofInlineLetter? : Char → Option Flags
  | 'i' => some { ignoreCase := true }
  | 'd' => some { unixLines := true }
  | 'm' => some { multiline := true }
  | 's' => some { dotAll := true }
  | 'u' => some { unicodeCase := true }
  | 'x' => some { comments := true }
  | _ => Option.none

/-- The switch of a letter. -/
def ofLetter? : Char → Option Flags
  | 'l' => some { literal := true }
  | letter => ofInlineLetter? letter

/-- The switches named by a string of letters, or the first letter that names none. -/
def ofLetters (letters : String) : Except ConfigError Flags :=
  letters.toList.foldlM (fun flags letter ↦
    match ofLetter? letter with
    | some flag => .ok (flags.union flag)
    | Option.none => .error (.unknownFlag letter)) none

end Flags

end Exemplar
