import Exemplar.CharSet.Render
import Exemplar.Regex.Basic

/-!
# Trees as text

`render` writes a tree as a pattern. Reading that pattern gives the tree back, up to simplification:
operators in a literal are escaped, and a body is put into a plain group where it would otherwise be
read as part of its surroundings.
-/

namespace Exemplar

/-- Whether the character is a control character. -/
def isControl (c : Char) : Bool :=
  c.toNat < 0x20 || (0x7F ≤ c.toNat && c.toNat < 0xA0)

/-- The mark behind a repetition. -/
def RepetitionMode.mark : RepetitionMode → List Char
  | greedy => []
  | reluctant => ['?']
  | possessive => ['+']

/-- The mark at the start of a group. -/
def GroupKind.mark : GroupKind → List Char
  | capturing _ none => []
  | capturing _ (some name) => '?' :: '<' :: name.toList ++ ['>']
  | plain => ['?', ':']
  | atomic => ['?', '>']
  | lookahead false => ['?', '=']
  | lookahead true => ['?', '!']
  | lookbehind false => ['?', '<', '=']
  | lookbehind true => ['?', '<', '!']

namespace Regex

/-- The characters that are operators of the pattern language. -/
def operators : List Char :=
  ['\\', '.', '[', ']', '{', '}', '(', ')', '*', '+', '?', '^', '$', '|']

/-- A character of a literal, escaped where it would not be read as itself. -/
def renderChar (c : Char) : List Char :=
  if c ∈ operators then ['\\', c]
  else if c = '\n' then ['\\', 'n']
  else if c = '\r' then ['\\', 'r']
  else if c = '\t' then ['\\', 't']
  else if isControl c then '\\' :: 'x' :: '{' :: Nat.toDigits 16 c.toNat ++ ['}']
  else [c]

/-- The text of a literal. -/
def renderText (text : List Char) : List Char :=
  text.flatMap renderChar

/-- A pattern in a plain group. -/
def renderGrouped (pattern : List Char) : List Char :=
  '(' :: '?' :: ':' :: pattern ++ [')']

/-- Whether a body needs a plain group in front of a repetition mark. -/
def needsGroup : Regex → Bool
  | empty | sequence _ | choice _ | repetition .. => true
  | literal text ignoreCase => !ignoreCase && text.length > 1
  | set _ | group .. | backref .. => false

/-- The mark of the counts of a repetition. -/
def renderCounts (least : Nat) (most : Bound) : List Char :=
  match least, most with
  | 0, .unbounded => ['*']
  | 1, .unbounded => ['+']
  | 0, .finite 1 _ => ['?']
  | least, .unbounded => '{' :: Nat.toDigits 10 least ++ [',', '}']
  | least, .finite most _ =>
      if least = most then '{' :: Nat.toDigits 10 least ++ ['}']
      else '{' :: Nat.toDigits 10 least ++ ',' :: Nat.toDigits 10 most ++ ['}']

mutual
/-- The pattern of a tree. -/
def render : Regex → List Char
  | empty => []
  | literal text true => '(' :: '?' :: 'i' :: ':' :: renderText text ++ [')']
  | literal text false => renderText text
  | set members => members.render
  | sequence parts => renderParts parts
  | choice [] => []
  | choice (option :: options) => render option ++ renderOptions options
  | repetition body least most mode =>
      (if body.needsGroup then renderGrouped (render body) else render body) ++
        renderCounts least most ++ mode.mark
  | group kind body => '(' :: kind.mark ++ render body ++ [')']
  | backref id _ => (toString id).toList

/-- The patterns of parts in a row, where a choice needs a plain group. -/
def renderParts : List Regex → List Char
  | [] => []
  | choice options :: parts => renderGrouped (render (choice options)) ++ renderParts parts
  | part :: parts => render part ++ renderParts parts

/-- The patterns of the options after the first. -/
def renderOptions : List Regex → List Char
  | [] => []
  | option :: options => '|' :: render option ++ renderOptions options
end

instance : ToString Regex := ⟨fun tree ↦ String.ofList tree.render⟩

end Regex

end Exemplar
