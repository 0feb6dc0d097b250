import Exemplar.Grammar.Cursor
import Exemplar.Regex.Basic

/-!
# Groups and references

While a pattern is read, `Groups` keeps the capturing groups that were opened and closed so far. A
backreference may only stand behind a group that is closed, and it takes its extent from that group.
-/

namespace Exemplar

/-- What is known of the groups of a pattern at some point: the number of capturing groups that
were opened, the numbers of those that have names, and the extents of those that were closed. The
positions of the backreferences are on record too, latest first, and that of the first set without
members. -/
structure Groups where
  count : Nat := 0
  names : List (String × Nat) := []
  closed : List (Nat × Extent) := []
  references : List Nat := []
  firstEmptySet : Option Nat := none
  deriving Repr, Inhabited

namespace Groups

/-- The number of the group that is referred to, if there is one of that name. -/
def number? (groups : Groups) : GroupId → Option Nat
  | .index number => some number
  | .name name => groups.names.lookup name

/-- Open the next capturing group at `start`. -/
def openCapture (groups : Groups) (name : Option String) (start : Nat) :
    Except Located (GroupKind × Groups) :=
  let number := groups.count + 1
  match name with
  | none => .ok (.capturing number none, { groups with count := number })
  | some name =>
      if (groups.names.lookup name).isSome then .error ⟨.duplicateName name, start⟩
      else
        .ok (.capturing number (some name),
          { groups with count := number, names := (name, number) :: groups.names })

/-- Close a group whose body has the given extent. -/
def close (groups : Groups) (kind : GroupKind) (extent : Extent) : Groups :=
  match kind with
  | .capturing number _ => { groups with closed := (number, extent) :: groups.closed }
  | _ => groups

/-- Take note of a set that was read at `start`. -/
def noteSet (groups : Groups) (members : CharSet) (start : Nat) : Groups :=
  if members.isEmpty ∧ groups.firstEmptySet = none then
    { groups with firstEmptySet := some start }
  else groups

/-- Refer to the group with a given number, at `start`. -/
def refer (groups : Groups) (id : GroupId) (number start : Nat) :
    Except Located (Regex × Groups) :=
  if number = 0 ∨ groups.count < number then .error ⟨.undefinedGroup id, start⟩
  else
    match groups.closed.lookup number with
    | none => .error ⟨.openGroup id, start⟩
    | some extent =>
        .ok (.backref id extent, { groups with references := start :: groups.references })

/-- Refer to the group with a given name, at `start`. -/
def referByName (groups : Groups) (name : String) (start : Nat) :
    Except Located (Regex × Groups) :=
  match groups.names.lookup name with
  | some number => groups.refer (.name name) number start
  | none => .error ⟨.unknownName name, start⟩

/-- Extend a number by the digits that follow, as long as there is a group with that number. The
second component counts the digits. -/
def extendNumber (groups : Groups) (number : Nat) : List Char → Nat × Nat
  | [] => (number, 0)
  | c :: rest =>
      let longer := number * 10 + (c.toNat - '0'.toNat)
      if c.isDigit ∧ longer ≤ groups.count then
        let (number, digits) := groups.extendNumber longer rest
        (number, digits + 1)
      else (number, 0)

end Groups

namespace Reader

/-- Take the name of a group and the bracket that closes it. -/
def groupName : Reader String := do
  let start ← position
  let name ← takeWhile Char.isAlphanum
  if (name.head?.any Char.isAlpha) = false then fail .nameWithoutLetter start
  else
    let stop ← position
    match ← next? with
    | some '>' => return String.ofList name
    | some _ => fail .unclosedName stop
    | none => fail .unclosedName (stop - 1)

/-- Taking the name of a group. -/
theorem Advances.groupName : Advances Reader.groupName := by
  refine position.bind fun start ↦ (takeWhile _).bind fun name ↦ ?_
  split
  · exact fail ..
  · refine position.bind fun stop ↦ next?.bind fun c ↦ ?_
    split
    · exact pure _
    · exact fail ..
    · exact fail ..

end Reader

end Exemplar
