/-!
# Names of groups

A capturing group is referred to by its number, counted from one in the order of the opening
parentheses, or by its name.
-/

namespace Exemplar

/-- How a reference names a capturing group. -/
inductive GroupId where
  | index (number : Nat)
  | name (name : String)
  deriving DecidableEq, Repr, Inhabited

/-- The reference as it is written in a pattern. -/
protected def GroupId.toString : GroupId → String
  | index number => s!"\\{number}"
  | name text => s!"\\k<{text}>"

instance : ToString GroupId := ⟨GroupId.toString⟩

end Exemplar
