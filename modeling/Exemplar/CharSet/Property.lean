import Exemplar.CharSet.Predefined
import Exemplar.Unicode.Alphabetic
import Exemplar.Unicode.Blank
import Exemplar.Unicode.Lowercase
import Exemplar.Unicode.Uppercase

/-!
# Named character properties

The sets that a pattern names with `\p`: the classes of ASCII, and properties of all characters
taken from the Unicode tables.
-/

namespace Exemplar.CharSet

/-- The characters of a table. -/
def ofRuns (runs : List Unicode.Run) : CharSet :=
  unionAll (runs.map fun run ↦
    if run.step = 1 then between run.first (run.last + 1) else ofCodes run.codes)

/-- The lower-case characters. -/
def lowercase : CharSet := ofRuns Unicode.lowercase

/-- The upper-case characters. -/
def uppercase : CharSet := ofRuns Unicode.uppercase

/-- The alphabetic characters. -/
def alphabetic : CharSet := ofRuns Unicode.alphabetic

/-- The blanks of all scripts. -/
def blank : CharSet := ofRuns Unicode.blank

/-- The blanks at which a line may be broken, and the separators among the controls. -/
def breakingBlank : CharSet :=
  blank ∩ (ofCodes [0x85, 0xA0, 0x2007, 0x202F]).negate ∪ between 0x1C 0x20

/-- The punctuation of ASCII. -/
def punctuation : CharSet :=
  range '!' '~' ∩ alphanumeric.negate

/-- The set with a given property name. -/
def named? : String → Option CharSet
  | "Lower" => some lower
  | "Upper" => some upper
  | "ASCII" => some (between 0 0x80)
  | "Alpha" => some (lower ∪ upper)
  | "Digit" => some digit
  | "Alnum" => some alphanumeric
  | "Punct" => some punctuation
  | "Graph" => some (range '!' '~')
  | "Print" => some (range ' ' '~')
  | "Blank" => some (ofCodes [0x09, 0x20])
  | "Cntrl" => some (between 0 0x20 ∪ ofCodes [0x7F])
  | "XDigit" => some (digit ∪ range 'A' 'F' ∪ range 'a' 'f')
  | "Space" => some space
  | "javaLowerCase" | "IsLowercase" => some lowercase
  | "javaUpperCase" | "IsUppercase" => some uppercase
  | "javaWhitespace" => some breakingBlank
  | "IsAlphabetic" => some alphabetic
  | "IsWhite_Space" | "IsWhiteSpace" => some blank
  | _ => none

end Exemplar.CharSet
