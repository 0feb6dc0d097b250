import Exemplar.Regex.Render
import Exemplar.Unicode.Hidden

/-!
# Outlines of trees

An outline shows a tree with one line for each node: what the node is, and the bounds on the length
of its strings. The nodes below it follow with a deeper indentation.
-/

namespace Exemplar

namespace CommandLine

/-- Whether the character does not show by itself. -/
def isHidden (c : Char) : Bool :=
  Unicode.hidden.any (·.contains c.toNat)

/-- A character of a quoted text. -/
def quoteChar (c : Char) : List Char :=
  if c = '"' ∨ c = '\\' then ['\\', c]
  else if c = '\t' then ['\\', 't']
  else if c = '\n' then ['\\', 'n']
  else if c = '\r' then ['\\', 'r']
  else if c.toNat = 0 then ['\\', '0']
  else if isHidden c then '\\' :: 'u' :: '{' :: Nat.toDigits 16 c.toNat ++ ['}']
  else [c]

/-- A text in double quotes, in which hidden characters can be seen. -/
def quote (text : List Char) : String :=
  String.ofList ('"' :: text.flatMap quoteChar ++ ['"'])

/-- The name of a mode. -/
def modeName : RepetitionMode → String
  | .greedy => "Greedy"
  | .reluctant => "Reluctant"
  | .possessive => "Possessive"

/-- Whether an assertion asks for absence. -/
def negatedField (negated : Bool) : String :=
  "\x7b negated: " ++ toString negated ++ " \x7d"

/-- The name of what a group does. -/
def kindName : GroupKind → String
  | .capturing number none => s!"Capturing #{number}"
  | .capturing number (some name) => s!"Capturing #{number} <{name}>"
  | .plain => "NonCapturing"
  | .atomic => "Atomic"
  | .lookahead negated => "LookAhead " ++ negatedField negated
  | .lookbehind negated => "LookBehind " ++ negatedField negated

/-- What a node is. -/
def label : Regex → String
  | .empty => "Empty"
  | .literal text ignoreCase => "Literal " ++ quote text ++ (if ignoreCase then " (?i)" else "")
  | .set members => s!"Class {members}"
  | .sequence _ => "Concat"
  | .choice _ => "Union"
  | .repetition _ least most mode =>
      "Quantified \x7b" ++ toString least ++ ", " ++ toString most ++ "\x7d " ++ modeName mode
  | .group kind _ => "Group " ++ kindName kind
  | .backref id _ => s!"BackRef {id}"

/-- The line of a node at a depth of indentation. -/
def outlineLine (depth : Nat) (tree : Regex) : String :=
  String.ofList (List.replicate (2 * depth) ' ') ++ label tree ++
    s!" [{tree.minLength}, {tree.maxLength}]"

mutual
/-- The lines of a tree at a depth of indentation. -/
def outline (depth : Nat) : Regex → List String
  | .sequence parts => outlineLine depth (.sequence parts) :: outlineAll (depth + 1) parts
  | .choice options => outlineLine depth (.choice options) :: outlineAll (depth + 1) options
  | .repetition body least most mode =>
      outlineLine depth (.repetition body least most mode) :: outline (depth + 1) body
  | .group kind body => outlineLine depth (.group kind body) :: outline (depth + 1) body
  | tree => [outlineLine depth tree]

/-- The lines of several trees at a depth of indentation. -/
def outlineAll (depth : Nat) : List Regex → List String
  | [] => []
  | tree :: trees => outline depth tree ++ outlineAll depth trees
end

end CommandLine

end Exemplar
