/-!
# JSON documents

A small JSON writer. Arrays and objects are laid out over several lines with an indentation of two
spaces, and characters outside ASCII are written as they are.
-/

namespace Exemplar

/-- A JSON document. -/
inductive Json where
  | null
  | number (value : Int)
  | string (value : String)
  | array (items : List Json)
  | object (fields : List (String × Json))
  deriving Inhabited

namespace Json

/-- Four hexadecimal digits for a code point below U+10000. -/
def fourDigits (code : Nat) : List Char :=
  (Nat.toDigits 16 code).leftpad 4 '0'

/-- A character inside a string. -/
def quoteChar (c : Char) : List Char :=
  if c = '"' then ['\\', '"']
  else if c = '\\' then ['\\', '\\']
  else if c = '\x08' then ['\\', 'b']
  else if c = '\t' then ['\\', 't']
  else if c = '\n' then ['\\', 'n']
  else if c = '\x0c' then ['\\', 'f']
  else if c = '\r' then ['\\', 'r']
  else if c.toNat < 0x20 then '\\' :: 'u' :: fourDigits c.toNat
  else [c]

/-- A string in double quotes. -/
def quote (text : String) : String :=
  String.ofList ('"' :: text.toList.flatMap quoteChar ++ ['"'])

/-- A new line at a depth of indentation. -/
def newLine (depth : Nat) : String :=
  "\n" ++ String.ofList (List.replicate (2 * depth) ' ')

mutual
/-- The text of a document at a depth of indentation. -/
def renderAt (depth : Nat) : Json → String
  | null => "null"
  | number value => toString value
  | string value => quote value
  | array [] => "[]"
  | array items => "[" ++ ",".intercalate (renderItems (depth + 1) items) ++ newLine depth ++ "]"
  | object [] => "\x7b\x7d"
  | object fields =>
      "\x7b" ++ ",".intercalate (renderFields (depth + 1) fields) ++ newLine depth ++ "\x7d"

/-- The texts of the items of an array, each on a line of its own. -/
def renderItems (depth : Nat) : List Json → List String
  | [] => []
  | item :: items => (newLine depth ++ renderAt depth item) :: renderItems depth items

/-- The texts of the fields of an object, each on a line of its own. -/
def renderFields (depth : Nat) : List (String × Json) → List String
  | [] => []
  | (name, value) :: fields =>
      (newLine depth ++ quote name ++ ": " ++ renderAt depth value) :: renderFields depth fields
end

/-- The text of a document. -/
def render (document : Json) : String :=
  renderAt 0 document

/-- A number, or null when there is none. -/
def ofOption (value : Option Int) : Json :=
  match value with
  | some value => number value
  | none => null

end Json

end Exemplar
