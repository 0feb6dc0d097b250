import Exemplar.Extent.Budget
import Exemplar.Regex.Basic

/-!
# Length targets

`sized target` restructures a tree so that its strings keep to a target length where the least
length of the tree allows it: a sequence splits the target among its parts, a choice drops the
options that are too long, and a repetition limits its copies.

The text of a group is repeated by its backreferences, so both must keep to one budget. The tree is
therefore sized twice. The first round finds the smallest budget among the backreferences of each
group, and the second round holds the group to it.
-/

namespace Exemplar

/-- The extents of the groups that were sized so far and the smallest budgets of the backreferences
to each group, which are met while a tree is sized, both latest first. -/
structure SizingPlan where
  groups : List (GroupId × Extent) := []
  budgets : List (GroupId × Nat) := []

namespace SizingPlan

/-- The smallest budget so far of the backreferences to a group. -/
def budget? (plan : SizingPlan) (id : GroupId) : Option Nat :=
  plan.budgets.lookup id

/-- The extent of a group that was sized. -/
def group? (plan : SizingPlan) (id : GroupId) : Option Extent :=
  plan.groups.lookup id

/-- Take note of the budget of a backreference. -/
def noteBudget (plan : SizingPlan) (id : GroupId) (budget : Nat) : SizingPlan :=
  let least := match plan.budget? id with
    | some previous => min previous budget
    | none => budget
  { plan with budgets := (id, least) :: plan.budgets.filter (·.1 != id) }

/-- Take note of the extent of a group. -/
def noteGroup (plan : SizingPlan) (id : GroupId) (extent : Extent) : SizingPlan :=
  { plan with groups := (id, extent) :: plan.groups.filter (·.1 != id) }

end SizingPlan

/-- The ways in which a capturing group is referred to. -/
def groupIds (number : Nat) (name : Option String) : List GroupId :=
  .index number :: name.toList.map .name

namespace Regex

/-- The smallest cap on the text of a group, under its number and under its name. -/
def groupCap (caps : GroupId → Option Nat) (number : Nat) (name : Option String) (target : Nat) :
    Nat :=
  ((groupIds number name).filterMap caps).foldl min target

mutual
/-- Size a tree, where `caps` limits the text of capturing groups. -/
def resize (caps : GroupId → Option Nat) : Regex → Nat → StateM SizingPlan Regex
  | backref id extent, target => do
      modify (·.noteBudget id target)
      return backref id (((← get).group? id).getD extent)
  | sequence parts, target => do
      return sequence (← resizeParts caps parts (Extent.splitTarget (extents parts) target))
  | choice options, target => do
      -- Where no option keeps to the target, the shortest ones stay.
      let reach := max target (choice options).minLength
      return choice (← resizeOptions caps reach options target)
  | repetition body least most mode, target => do
      let (count, each) := Extent.fitRepetition body.extent least most target
      return repeated (← resize caps body each) least count mode
  | group (.capturing number name) body, target => do
      let body ← resize caps body (groupCap caps number name target)
      modify fun plan ↦
        (groupIds number name).foldl (fun plan id ↦ plan.noteGroup id body.extent) plan
      return group (.capturing number name) body
  | group .plain body, target => return group .plain (← resize caps body target)
  | group .atomic body, target => return group .atomic (← resize caps body target)
  | tree, _ => return tree

/-- Size parts in a row, each to its own target. -/
def resizeParts (caps : GroupId → Option Nat) :
    List Regex → List Nat → StateM SizingPlan (List Regex)
  | part :: parts, target :: targets => do
      let part ← resize caps part target
      return part :: (← resizeParts caps parts targets)
  | _, _ => return []

/-- Size the options whose least length is within reach, and drop the others. -/
def resizeOptions (caps : GroupId → Option Nat) (reach : Nat) :
    List Regex → Nat → StateM SizingPlan (List Regex)
  | [], _ => return []
  | option :: options, target => do
      if option.minLength ≤ reach then
        let option ← resize caps option target
        return option :: (← resizeOptions caps reach options target)
      else resizeOptions caps reach options target
end

/-- The tree restructured so that no string exceeds `target`, as far as its least length allows. -/
def sized (tree : Regex) (target : Nat) : Regex :=
  let plan := ((tree.resize (fun _ ↦ none) target).run {}).2
  ((tree.resize plan.budget? target).run {}).1

/-! ## Checked arithmetic -/

mutual
/-- Size a tree with checked arithmetic, where `caps` limits the text of capturing groups. -/
def resize? (caps : GroupId → Option Nat) : Regex → Nat → StateT SizingPlan Option Regex
  | backref id extent, target => do
      modify (·.noteBudget id target)
      return backref id (((← get).group? id).getD extent)
  | sequence parts, target => do
      let targets ← Extent.splitTarget? (extents parts) target
      return sequence (← resizeParts? caps parts targets)
  | choice options, target => do
      let reach := max target (choice options).minLength
      return choice (← resizeOptions? caps reach options target)
  | repetition body least most mode, target => do
      let (count, each) ← Extent.fitRepetition? body.extent least most target
      return repeated (← resize? caps body each) least count mode
  | group (.capturing number name) body, target => do
      let body ← resize? caps body (groupCap caps number name target)
      modify fun plan ↦
        (groupIds number name).foldl (fun plan id ↦ plan.noteGroup id body.extent) plan
      return group (.capturing number name) body
  | group .plain body, target => return group .plain (← resize? caps body target)
  | group .atomic body, target => return group .atomic (← resize? caps body target)
  | tree, _ => return tree

/-- Size parts in a row with checked arithmetic, each to its own target. -/
def resizeParts? (caps : GroupId → Option Nat) :
    List Regex → List Nat → StateT SizingPlan Option (List Regex)
  | part :: parts, target :: targets => do
      let part ← resize? caps part target
      return part :: (← resizeParts? caps parts targets)
  | _, _ => return []

/-- Size the options whose least length is within reach with checked arithmetic, and drop the
others. -/
def resizeOptions? (caps : GroupId → Option Nat) (reach : Nat) :
    List Regex → Nat → StateT SizingPlan Option (List Regex)
  | [], _ => return []
  | option :: options, target => do
      if option.minLength ≤ reach then
        let option ← resize? caps option target
        return option :: (← resizeOptions? caps reach options target)
      else resizeOptions? caps reach options target
end

/-- The tree restructured for a target with checked arithmetic. -/
def sized? (tree : Regex) (target : Nat) : Option Regex := do
  let (_, plan) ← (tree.resize? (fun _ ↦ none) target).run {}
  let (result, _) ← (tree.resize? plan.budget? target).run {}
  return result

end Regex

end Exemplar
