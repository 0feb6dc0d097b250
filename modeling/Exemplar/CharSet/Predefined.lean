import Exemplar.CharSet.Basic

/-!
# Predefined character sets

The sets behind the dot and behind escapes such as `\d`, and the letters and digits of ASCII.
-/

namespace Exemplar.CharSet

/-- The characters that end a line. -/
def lineEnds : CharSet :=
  ofCodes [0x0A, 0x0D, 0x85, 0x2028, 0x2029]

/-- All characters that end no line. -/
def anyExceptLineEnds : CharSet :=
  lineEnds.negate

/-- All characters except the line feed. -/
def anyExceptLineFeed : CharSet :=
  (single '\n').negate

/-- The decimal digits. -/
def digit : CharSet :=
  range '0' '9'

/-- The lower-case letters of ASCII. -/
def lower : CharSet :=
  range 'a' 'z'

/-- The upper-case letters of ASCII. -/
def upper : CharSet :=
  range 'A' 'Z'

/-- The letters and digits of ASCII. -/
def alphanumeric : CharSet :=
  digit ∪ upper ∪ lower

/-- The lower-case letters and the digits of ASCII. -/
def lowerAlphanumeric : CharSet :=
  digit ∪ lower

/-- The characters of a word: letters, digits and the underscore. -/
def word : CharSet :=
  alphanumeric ∪ single '_'

/-- The blanks of ASCII. -/
def space : CharSet :=
  ofCodes [0x09, 0x0A, 0x0B, 0x0C, 0x0D, 0x20]

/-- The blanks within a line. -/
def horizontalSpace : CharSet :=
  ofCodes [0x09, 0x20, 0xA0, 0x1680, 0x180E, 0x202F, 0x205F, 0x3000] ∪ between 0x2000 0x200B

/-- The characters that move to another line. -/
def verticalSpace : CharSet :=
  ofCodes [0x0A, 0x0B, 0x0C, 0x0D, 0x85, 0x2028, 0x2029]

end Exemplar.CharSet
