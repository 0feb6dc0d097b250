import Exemplar.GroupId

/-!
# Errors of generation

A tree that was read from a pattern always yields a string. A tree that was built by hand may ask
for a character of an empty set, or for the text of a group that has none yet.
-/

namespace Exemplar

/-- What keeps a tree from yielding a string. A character of an empty set was asked for, or the
text of a group before there was any. -/
inductive GenerationError where
  | emptyCharSet
  | unresolved (group : GroupId)
  deriving DecidableEq, Repr, Inhabited

/-- The text shown for the error. -/
def GenerationError.message : GenerationError → String
  | emptyCharSet => "Generation failed: cannot sample an empty character set"
  | unresolved group => s!"Generation failed: backreference {group} used before its group captured"

end Exemplar
