import Exemplar.Proofs.Length.Room
import Mathlib.Data.ENat.Basic

/-!
# A target is divided exactly

The budgets into which a target is split are a division of it (`isDivision_splitTarget`): every
part gets its least length, and together the parts get what the target has, as long as they can use
it.

The shares of the slack are rounded down, so something may be left over. It is no more than the
number of parts whose share was rounded below their room (`leftover_le_countP`), because each of
these loses less than one. So handing one to each of them in a single pass is enough (`sum_topUp`).
-/

namespace Exemplar

/-- The bound as a number, which is infinite when there is no limit. -/
def Bound.toENat : Bound → ℕ∞
  | finite limit _ => limit
  | unbounded => ⊤

namespace Extent

open List (Forall₂)

variable {parts : List Extent} {target slack total : Nat}

/-- The budgets divide a target among parts in a row. Every part gets at least its least length,
and just that when the target is too short for the least lengths. A target that is long enough for
them is not exceeded. One between the least lengths and the bounds is used up, and no part gets
more than its bound. One that the bounds together do not exceed gives every part its bound. -/
structure IsDivision (parts : List Extent) (target : Nat) (budgets : List Nat) : Prop where
  least : Forall₂ (fun part budget ↦ part.min ≤ budget) parts budgets
  short : target < (parts.map (·.min)).sum → budgets = parts.map (·.min)
  sum_le : (parts.map (·.min)).sum ≤ target → budgets.sum ≤ target
  exact : (parts.map (·.min)).sum ≤ target → target ≤ (parts.map (·.max.toENat)).sum →
    budgets.sum = target ∧ Forall₂ (fun part budget ↦ part.max.Allows budget) parts budgets
  full : (parts.map (·.max.toENat)).sum ≤ target →
    Forall₂ (fun part budget ↦ part.max.IsWithin budget) parts budgets

/-! ## Shares -/

/-- Topping up hands one to each share that is below its room, until nothing remains. -/
theorem sum_topUp (shares : List (Nat × Nat)) (remainder : Nat) :
    (topUp shares remainder).sum =
      (shares.map (·.1)).sum + Min.min remainder
        (shares.countP fun share ↦ share.1 < share.2) := by
  induction shares generalizing remainder with
  | nil => simp [topUp]
  | cons share shares ih =>
    obtain ⟨share, room⟩ := share
    rw [topUp, List.map_cons, List.sum_cons]
    by_cases hroom : share < room
    · rw [List.countP_cons_of_pos (by simpa using hroom)]
      split
      · rw [List.sum_cons, ih]
        omega
      · rw [List.sum_cons, ih]
        omega
    · rw [List.countP_cons_of_neg (by simpa using hroom), if_neg (by omega), List.sum_cons, ih]
      omega

/-- Topping up raises no share above its room. -/
theorem topUp_le {shares : List (Nat × Nat)} (h : ∀ share ∈ shares, share.1 ≤ share.2)
    (remainder : Nat) :
    Forall₂ (fun share raised ↦ raised ≤ share.2) shares (topUp shares remainder) := by
  induction shares generalizing remainder with
  | nil => exact .nil
  | cons share shares ih =>
    obtain ⟨share, room⟩ := share
    obtain ⟨hshare, hshares⟩ := List.forall_mem_cons.1 h
    rw [topUp]
    split
    · rename_i hroom
      exact .cons hroom.2 (ih hshares _)
    · exact .cons hshare (ih hshares _)

/-- A share of a slack that does not exceed all rooms together does not exceed its room. -/
theorem share_le_room (hslack : slack ≤ total) (room : Nat) : slack * room / total ≤ room :=
  Nat.div_le_of_le_mul (Nat.mul_le_mul_right room hslack)

/-- What the rounding down of the shares leaves over is no more than one for each share that is
below its room. -/
theorem leftover_le_countP {rooms : List Nat} (hslack : slack ≤ rooms.sum)
    (hpos : 0 < rooms.sum) :
    slack ≤ (rooms.map fun room ↦ slack * room / rooms.sum).sum +
      rooms.countP fun room ↦ slack * room / rooms.sum < room := by
  -- The total is not the sum over the rooms that are left, so the induction is for any total.
  have hrounding (total : Nat) (hslack : slack ≤ total) (hpos : 0 < total) (rooms : List Nat) :
      slack * rooms.sum ≤ total * ((rooms.map fun room ↦ slack * room / total).sum +
        rooms.countP fun room ↦ slack * room / total < room) := by
    induction rooms with
    | nil => simp
    | cons room rooms ih =>
      rw [List.sum_cons, List.map_cons, List.sum_cons, Nat.mul_add]
      by_cases hroom : slack * room / total < room
      · -- The share loses less than one.
        have hlost : slack * room ≤ total * (slack * room / total + 1) :=
          Nat.le_of_lt (Nat.lt_mul_div_succ _ hpos)
        rw [List.countP_cons_of_pos (by simpa using hroom)]
        calc slack * room + slack * rooms.sum
            ≤ total * (slack * room / total + 1) + total * _ := Nat.add_le_add hlost ih
          _ = _ := by rw [← Nat.mul_add]; congr 1; omega
      · -- The share fills the room, so nothing of it was lost.
        have hfull : slack * room ≤ total * (slack * room / total) :=
          Nat.le_trans (Nat.mul_le_mul_right room hslack)
            (Nat.mul_le_mul_left total (Nat.le_of_not_lt hroom))
        rw [List.countP_cons_of_neg (by simpa using hroom)]
        calc slack * room + slack * rooms.sum
            ≤ total * (slack * room / total) + total * _ := Nat.add_le_add hfull ih
          _ = _ := by rw [← Nat.mul_add]; congr 1; omega
  have hall := hrounding rooms.sum hslack hpos rooms
  rw [Nat.mul_comm] at hall
  exact Nat.le_of_mul_le_mul_left hall hpos

/-! ## Rooms -/

/-- A part that grows within its room does not exceed its bound. -/
theorem allows_min_add {part : Extent} (hvalid : part.Valid) {share : Nat}
    (h : share ≤ room slack part) :
    part.max.Allows (part.min + share) := by
  cases hmax : part.max with
  | unbounded => trivial
  | finite limit isSize =>
    rw [room_of_finite hvalid hmax] at h
    rw [Valid, hmax] at hvalid
    have hvalid : part.min ≤ limit := hvalid
    show part.min + share ≤ limit
    omega

/-- A number up to the slack by which the least lengths can grow without exceeding all bounds is no
more than all rooms together. -/
theorem le_sum_room (hvalid : ∀ part ∈ parts, part.Valid) {number : Nat}
    (hslack : number ≤ slack)
    (h : ((parts.map (·.min)).sum + number : Nat) ≤ (parts.map (·.max.toENat)).sum) :
    number ≤ (parts.map (room slack)).sum := by
  induction parts generalizing number with
  | nil => simpa using h
  | cons part parts ih =>
    obtain ⟨hpart, hparts⟩ := List.forall_mem_cons.1 hvalid
    simp only [List.map_cons, List.sum_cons] at h ⊢
    cases hmax : part.max with
    | unbounded =>
      have hroom : room slack part = slack := by rw [room, hmax]
      omega
    | finite limit isSize =>
      have hroom := room_of_finite hpart hmax slack
      rw [Valid, hmax] at hpart
      have hpart : part.min ≤ limit := hpart
      by_cases hfits : number ≤ room slack part
      · omega
      · -- The part grows to its bound, and the others have to take the rest.
        have hrest := ih hparts (show number - (limit - part.min) ≤ slack by omega) ?_
        · omega
        · rw [hmax, Bound.toENat] at h
          cases hsum : (parts.map (·.max.toENat)).sum with
          | top => exact le_top
          | coe sum =>
            rw [hsum] at h
            norm_cast at h ⊢
            omega

/-- Bounds that together do not exceed a size have a sum that does not exceed it. -/
theorem isWithin_inSequence (htarget : target < Size.modulus)
    (h : (parts.map (·.max.toENat)).sum ≤ target) : (inSequence parts).max.IsWithin target := by
  induction parts generalizing target with
  | nil => exact Nat.zero_le target
  | cons part parts ih =>
    rw [List.map_cons, List.sum_cons] at h
    show (part.max + (inSequence parts).max).IsWithin target
    cases hmax : part.max with
    | unbounded =>
      rw [hmax, Bound.toENat, top_add] at h
      exact absurd h (by simp)
    | finite limit isSize =>
      rw [hmax, Bound.toENat] at h
      cases hsum : (parts.map (·.max.toENat)).sum with
      | top =>
        rw [hsum, add_top] at h
        exact absurd h (by simp)
      | coe sum =>
        rw [hsum] at h
        norm_cast at h
        have hrest := ih (show sum < Size.modulus by omega) (le_of_eq hsum)
        rw [Bound.isWithin_iff htarget, ← Nat.add_sub_cancel' (show limit ≤ target by omega),
          ← Bound.ofExact_add_ofExact, Bound.ofExact_of_lt isSize]
        refine Bound.add_le_add le_rfl ((Bound.isWithin_iff ?_).1 (hrest.mono ?_))
        · omega
        · omega

/-! ## Divisions -/

/-- The share of a part in the slack, rounded down. -/
def share (parts : List Extent) (slack : Nat) (part : Extent) : Nat :=
  slack * room slack part / (parts.map (room slack)).sum

/-- Every part gets its least length and its share, topped up with what is left over. -/
theorem splitTarget_eq (hslack : target - floorOf parts = slack)
    (hpos : (parts.map (room slack)).sum ≠ 0) :
    splitTarget parts target = List.zipWith (· + ·) (parts.map (·.min))
      (topUp (parts.map fun part ↦ (share parts slack part, room slack part))
        (slack - (parts.map (share parts slack)).sum)) := by
  rw [splitTarget, hslack, List.zipWith_map_left]
  refine (if_neg hpos).trans ?_
  show List.zipWith _ _ (topUp (List.zip ((parts.map (room slack)).map _) _) (slack - List.sum _)) =
    _
  rw [List.map_map, ← List.zip_map']
  rfl

/-- A target between the least lengths and the bounds of the parts leaves no more slack than there
is room. -/
theorem slack_le_sum_room (hvalid : ∀ part ∈ parts, part.Valid)
    (hfloor : floorOf parts = (parts.map (·.min)).sum)
    (hleast : (parts.map (·.min)).sum ≤ target)
    (hmost : target ≤ (parts.map (·.max.toENat)).sum) :
    target - floorOf parts ≤ (parts.map (room (target - floorOf parts))).sum := by
  refine le_sum_room hvalid le_rfl ?_
  rwa [hfloor, Nat.add_sub_cancel' hleast]

/-- A target that leaves no more slack than there is room is used up. -/
theorem sum_splitTarget_eq (hfloor : floorOf parts = (parts.map (·.min)).sum)
    (hleast : (parts.map (·.min)).sum ≤ target)
    (hroom : target - floorOf parts ≤ (parts.map (room (target - floorOf parts))).sum) :
    (splitTarget parts target).sum = target := by
  generalize hslack : target - floorOf parts = slack at hroom
  by_cases hzero : (parts.map (room slack)).sum = 0
  · -- There is no slack, so the parts have their least lengths.
    rw [splitTarget_of_le_floorOf (by omega)]
    omega
  · have hleft := leftover_le_countP hroom (Nat.pos_of_ne_zero hzero)
    have hshares := sum_shares_le slack hzero
    rw [List.map_map, List.countP_map] at hleft
    rw [List.map_map] at hshares
    have hcount : slack ≤ (parts.map (share parts slack)).sum +
        parts.countP fun part ↦ share parts slack part < room slack part := hleft
    have hle : (parts.map (share parts slack)).sum ≤ slack := hshares
    rw [splitTarget_eq hslack hzero, ← List.sum_add_sum_eq_sum_zipWith_of_length_eq _ _
      (by simp [length_topUp]), sum_topUp, List.map_map, List.countP_map]
    show (parts.map (·.min)).sum + ((parts.map (share parts slack)).sum + Min.min _
      (parts.countP fun part ↦ share parts slack part < room slack part)) = target
    omega

/-- Parts that grow within their rooms do not exceed their bounds. -/
theorem allows_zipWith (hvalid : ∀ part ∈ parts, part.Valid) {raised : List Nat}
    (h : Forall₂ (fun part raised ↦ raised ≤ room slack part) parts raised) :
    Forall₂ (fun part budget ↦ part.max.Allows budget) parts
      (List.zipWith (fun part share ↦ part.min + share) parts raised) := by
  induction h with
  | nil => exact .nil
  | cons hhead htail ih =>
    obtain ⟨hpart, hparts⟩ := List.forall_mem_cons.1 hvalid
    exact .cons (allows_min_add hpart hhead) (ih hparts)

/-- A target that leaves no more slack than there is room gives no part more than its bound. -/
theorem allows_splitTarget (hvalid : ∀ part ∈ parts, part.Valid)
    (hroom : target - floorOf parts ≤ (parts.map (room (target - floorOf parts))).sum) :
    Forall₂ (fun part budget ↦ part.max.Allows budget) parts (splitTarget parts target) := by
  generalize hslack : target - floorOf parts = slack at hroom
  by_cases hzero : (parts.map (room slack)).sum = 0
  · rw [splitTarget_of_le_floorOf (by omega), List.forall₂_map_right_iff, List.forall₂_same]
    exact hvalid
  · have hshares : ∀ pair ∈ parts.map fun part ↦ (share parts slack part, room slack part),
        pair.1 ≤ pair.2 := by
      rw [List.forall_mem_map]
      exact fun part _ ↦ share_le_room hroom (room slack part)
    have hraised := topUp_le hshares (slack - (parts.map (share parts slack)).sum)
    rw [List.forall₂_map_left_iff] at hraised
    rw [splitTarget_eq hslack hzero, List.zipWith_map_left]
    exact allows_zipWith hvalid hraised

/-- The budgets into which a target is split divide it. -/
theorem isDivision_splitTarget (hvalid : ∀ part ∈ parts, part.Valid)
    (htarget : target < Size.modulus) :
    IsDivision parts target (splitTarget parts target) := by
  have hlargest : Size.largest = Size.modulus - 1 := rfl
  have hfloor := floorOf_eq parts
  refine ⟨min_le_splitTarget parts target, fun hshort ↦ splitTarget_of_le_floorOf (by omega),
    fun hleast ↦ ?_, fun hleast hmost ↦ ?_, fun hfull ↦ ?_⟩
  · rcases Nat.lt_or_ge (floorOf parts) target with hlt | hle
    · exact sum_splitTarget_le (by omega) (by omega)
    · rw [splitTarget_of_le_floorOf hle]
      exact hleast
  · have hroom := slack_le_sum_room hvalid (by omega) hleast hmost
    exact ⟨sum_splitTarget_eq (by omega) hleast hroom, allows_splitTarget hvalid hroom⟩
  · exact isWithin_splitTarget hvalid (isWithin_inSequence htarget hfull)

/-- Seven characters are divided among a word of any length, a fixed pair of characters, and up to
three more: the pair gets two, and the slack of five is shared in the proportion of five to none to
three. -/
theorem isDivision_mixedParts :
    let parts : List Extent :=
      [⟨0, .unbounded, by decide⟩, .ofLength 2, ⟨0, .ofExact 3, by decide⟩]
    (∀ part ∈ parts, part.Valid) ∧ splitTarget parts 7 = [4, 2, 1] ∧
      IsDivision parts 7 (splitTarget parts 7) := by
  intro parts
  have hvalid : ∀ part ∈ parts, part.Valid := by decide
  exact ⟨hvalid, by decide, isDivision_splitTarget hvalid (by decide)⟩

end Extent

end Exemplar
