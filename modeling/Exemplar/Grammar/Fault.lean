import Exemplar.GroupId

/-!
# Faults in patterns

A `Fault` is a reason why a pattern is refused. Some faults break the pattern language, others are
constructs of the language for which no string can be generated. A `Diagnostic` is what is shown for
a fault: a line of text, and the pattern with a caret under the offending position.
-/

namespace Exemplar

/-- Whether a refused pattern breaks the language or goes beyond what can be generated. -/
inductive FaultKind where
  | malformed
  | unsupported
  deriving DecidableEq, Repr, Inhabited

/-- What is shown for a refused pattern. `kind` says whether the pattern breaks the language, and
`position` is the number of characters before the offending one. -/
structure Diagnostic where
  kind : FaultKind
  description : String
  pattern : String
  position : Nat
  deriving DecidableEq, Repr, Inhabited

namespace Diagnostic

/-- The pattern, and under it a caret at the offending position, or behind the last character. -/
def caret (diagnostic : Diagnostic) : String :=
  let offset := min diagnostic.position diagnostic.pattern.length
  diagnostic.pattern ++ "\n" ++ String.ofList (List.replicate offset ' ') ++ "^"

/-- The whole text of the diagnostic. -/
def message (diagnostic : Diagnostic) : String :=
  let title := match diagnostic.kind with
    | .malformed => "Syntax error"
    | .unsupported => "Unsupported construct"
  s!"{title}: {diagnostic.description} near index {diagnostic.position}\n{diagnostic.caret}"

end Diagnostic

/-- A reason why a pattern is refused, spelled out by its `description`. The faults from
`unboundedLookaround` on belong to constructs of the language for which no string can be generated,
and the others break the language. -/
inductive Fault where
  | unmatchedParenthesis
  | danglingMark (mark : Char)
  | missingCount
  | unclosedCounts
  | countOutOfRange
  | unknownModifier
  | unclosedGroup
  | duplicateName (name : String)
  | nameWithoutLetter
  | unclosedName
  | missingName
  | unknownName (name : String)
  | unclosedSet
  | badRange
  | unknownEscape
  | trailingBackslash
  | badControl
  | badOctal
  | badHexadecimal
  | codePointTooBig
  | unclosedHexadecimal
  | unclosedProperty
  | missingProperty
  | unboundedLookaround
  | unicodeClasses
  | undefinedGroup (id : GroupId)
  | openGroup (id : GroupId)
  | uncertainGroup (id : GroupId)
  | impossible
  | namedCharacter
  | matchAnchor
  | graphemeCluster
  | loneSurrogate
  | unknownProperty (name : String)
  | supplementaryMember
  deriving DecidableEq, Repr, Inhabited

namespace Fault

/-- Whether the fault breaks the language. -/
def kind : Fault → FaultKind
  | unboundedLookaround | unicodeClasses | undefinedGroup _ | openGroup _ | uncertainGroup _
  | impossible | namedCharacter | matchAnchor | graphemeCluster | loneSurrogate
  | unknownProperty _ | supplementaryMember => .unsupported
  | _ => .malformed

/-- The text for the fault. -/
def description : Fault → String
  | unmatchedParenthesis => "Unmatched closing ')'"
  | danglingMark mark => s!"Dangling meta character '{mark}'"
  | missingCount => "Illegal repetition"
  | unclosedCounts => "Unclosed counted closure"
  | countOutOfRange => "Illegal repetition range"
  | unknownModifier => "Unknown inline modifier"
  | unclosedGroup => "Unclosed group"
  | duplicateName name => s!"Named capturing group <{name}> is already defined"
  | nameWithoutLetter => "capturing group name does not start with a Latin letter"
  | unclosedName => "named capturing group is missing trailing '>'"
  | missingName => "\\k is not followed by '<' for named capturing group"
  | unknownName name => s!"named capturing group <{name}> does not exist"
  | unclosedSet => "Unclosed character class"
  | badRange => "Illegal character range"
  | unknownEscape => "Illegal/unsupported escape sequence"
  | trailingBackslash => "Trailing backslash"
  | badControl => "Illegal control escape sequence"
  | badOctal => "Illegal octal escape sequence"
  | badHexadecimal => "Illegal hexadecimal escape sequence"
  | codePointTooBig => "Hexadecimal codepoint is too big"
  | unclosedHexadecimal => "Unclosed hexadecimal escape sequence"
  | unclosedProperty => "Unclosed character family"
  | missingProperty => "Illegal character family"
  | unboundedLookaround => "lookaround with unbounded length"
  | unicodeClasses => "Unicode character class flag (?U)"
  | undefinedGroup id => s!"backreference {id} to an undefined group"
  | openGroup id => s!"backreference {id} inside its own group"
  | uncertainGroup id => s!"backreference {id} to a group that may not have captured"
  | impossible => "character class that matches nothing"
  | namedCharacter => "named character escape \\N\x7b...\x7d"
  | matchAnchor => "\\G anchor"
  | graphemeCluster => "\\X grapheme cluster"
  | loneSurrogate => "unpaired surrogate code point"
  | unknownProperty name => "character property \\p\x7b" ++ name ++ "\x7d"
  | supplementaryMember => "supplementary code point in a character class"

end Fault

/-- A fault and the number of characters before the place where it was found. -/
structure Located where
  fault : Fault
  position : Nat
  deriving DecidableEq, Repr, Inhabited

/-- Why and where a pattern was refused. -/
structure CompileError where
  pattern : String
  located : Located
  deriving DecidableEq, Repr, Inhabited

/-- What is shown for the error. -/
def CompileError.diagnostic (error : CompileError) : Diagnostic where
  kind := error.located.fault.kind
  description := error.located.fault.description
  pattern := error.pattern
  position := error.located.position

end Exemplar
