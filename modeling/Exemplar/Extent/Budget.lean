import Exemplar.Extent.Basic

/-!
# Budgets

A length target for a whole is split into budgets for its parts. `splitTarget` divides the target
among parts in a row, `fitRepetition` chooses how often a body may be repeated and how long each
copy may grow, and `mostCopies` and `copyBudget` do the same for a repetition that is being
written out.
-/

namespace Exemplar.Extent

/-- The least length of several strings in a row. -/
def floorOf (parts : List Extent) : Nat :=
  (inSequence parts).min

/-- How far a string can grow above its least length, but no further than `slack`. -/
def room (slack : Nat) (extent : Extent) : Nat :=
  match extent.max with
  | .finite limit _ => Min.min (Size.subWrapped limit extent.min) slack
  | .unbounded => slack

/-- Raise shares by one from the left, each within its room, until nothing remains. -/
def topUp : List (Nat × Nat) → Nat → List Nat
  | [], _ => []
  | (share, room) :: rest, remainder =>
      if 0 < remainder ∧ share < room then (share + 1) :: topUp rest (remainder - 1)
      else share :: topUp rest remainder

/-- Split `target` among parts in a row: each gets its least length and a share of the slack in
proportion to its room. What the rounding down leaves over goes to the leftmost parts with room. -/
def splitTarget (parts : List Extent) (target : Nat) : List Nat :=
  let slack := target - floorOf parts
  let rooms := parts.map (room slack)
  let total := Size.total rooms
  if total = 0 then parts.map (·.min)
  else
    let shares := rooms.map fun room ↦ slack * room / total
    let raised := topUp (shares.zip rooms) (slack - Size.total shares)
    List.zipWith (fun part share ↦ part.min + share) parts raised

/-- The budget of the first of several parts in a row. -/
def firstBudget (parts : List Extent) (target : Nat) : Nat :=
  (splitTarget parts target).headD 0

/-- Choose the number of copies and the length of each copy for a body repeated between `least`
and `most` times within `target`.

A repetition that fits keeps its bound. One that cannot fit is cut to the fewest and shortest
copies. A body of bounded length is repeated at full length as often as it fits. Otherwise the
number of copies is near the square root of the target, and the copies share the target evenly. -/
def fitRepetition (body : Extent) (least : Nat) (most : Bound) (target : Nat) : Bound × Nat :=
  if (body.max * most).IsWithin target then (most, body.max.finite?.getD body.min)
  else if target < Size.mulCapped least body.min then (.ofExact least, body.min)
  else
    let ceiling := most.finite?.getD Size.largest
    match fullCopies body least target with
    | some each => (.ofExact (Max.max (Min.min (target / each) ceiling) least), each)
    | none =>
        let count :=
          Max.max
            (Min.min (Min.min (Max.max (Size.squareRoot target) 1) ceiling)
              (target / Max.max body.min 1))
            least
        (.ofExact count, if count = 0 then body.min else Max.max (target / count) body.min)
where
  /-- The full length of a bounded body of which the fewest copies fit. -/
  fullCopies (body : Extent) (least target : Nat) : Option Nat :=
    match body.max with
    | .finite each _ =>
        if 0 < each ∧ Size.mulCapped least each ≤ target then some each else none
    | .unbounded => none

/-- The largest number of copies worth writing for a body repeated between `least` and `most`
times. Without a budget an unbounded repetition runs its fewest copies. -/
def mostCopies (body : Extent) (least : Nat) (most : Bound) (budget : Option Nat) : Nat :=
  match most, budget with
  | .finite limit _, _ => limit
  | .unbounded, none => least
  | .unbounded, some budget =>
      let each := (body.max.finite?.filter (0 < ·)).getD (Max.max body.min 1)
      Max.max (budget / each) least

/-- The budget of one of `left` copies that still share `budget`: the least length of a copy and an
even share of what is left above the least length of all of them. -/
def copyBudget (least left budget : Nat) : Nat :=
  Size.addWrapped least ((budget - Size.mulWrapped left least) / left)

/-! ## Checked budgets -/

/-- The room of a string, if the bound is not below the least length. -/
def room? (slack : Nat) (extent : Extent) : Option Nat :=
  match extent.max with
  | .finite limit _ => do return Min.min (← Size.sub? limit extent.min) slack
  | .unbounded => some slack

/-- The shares behind raising them, if each raised share is a size. -/
def topUp? : List (Nat × Nat) → Nat → Option (List Nat)
  | [], _ => some []
  | (share, room) :: rest, remainder =>
      if 0 < remainder ∧ share < room then do
        return (← Size.add? share 1) :: (← topUp? rest (← Size.sub? remainder 1))
      else do return share :: (← topUp? rest remainder)

/-- The budgets of parts in a row, if all sizes on the way to them are found. -/
def splitTarget? (parts : List Extent) (target : Nat) : Option (List Nat) := do
  let slack := target - floorOf parts
  let rooms ← parts.mapM (room? slack)
  let total := Size.total rooms
  if total = 0 then return parts.map (·.min)
  else
    let shares ← rooms.mapM fun room ↦ do Size.narrow? (← Size.div? (slack * room) total)
    let raised ← topUp? (shares.zip rooms) (← Size.sub? slack (← Size.total? shares))
    (parts.zip raised).mapM fun part ↦ Size.add? part.1.min part.2

/-- The budget of the first of several parts in a row, computed with checked arithmetic. -/
def firstBudget? (parts : List Extent) (target : Nat) : Option Nat := do
  return (← splitTarget? parts target).headD 0

/-- The number of copies and the length of each, if all divisors are positive. -/
def fitRepetition? (body : Extent) (least : Nat) (most : Bound) (target : Nat) :
    Option (Bound × Nat) :=
  if (body.max * most).IsWithin target then some (most, body.max.finite?.getD body.min)
  else if target < Size.mulCapped least body.min then some (.ofExact least, body.min)
  else
    let ceiling := most.finite?.getD Size.largest
    match fitRepetition.fullCopies body least target with
    | some each => do
        return (.ofExact (Max.max (Min.min (← Size.div? target each) ceiling) least), each)
    | none => do
        let count :=
          Max.max
            (Min.min (Min.min (Max.max (Size.squareRoot target) 1) ceiling)
              (← Size.div? target (Max.max body.min 1)))
            least
        if count = 0 then return (.ofExact count, body.min)
        else return (.ofExact count, Max.max (← Size.div? target count) body.min)

/-- The largest number of copies worth writing, if the divisor is positive. -/
def mostCopies? (body : Extent) (least : Nat) (most : Bound) (budget : Option Nat) : Option Nat :=
  match most, budget with
  | .finite limit _, _ => some limit
  | .unbounded, none => some least
  | .unbounded, some budget => do
      let each := (body.max.finite?.filter (0 < ·)).getD (Max.max body.min 1)
      return Max.max (← Size.div? budget each) least

/-- The budget of one of `left` copies, if the least length of all of them is a size and so is the
budget. -/
def copyBudget? (least left budget : Nat) : Option Nat := do
  Size.add? least (← Size.div? (budget - (← Size.mul? left least)) left)

end Exemplar.Extent
