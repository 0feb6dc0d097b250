import Exemplar.Proofs.Length.Refitting

/-!
# Checked arithmetic

A checked operation on sizes has no result where the exact result is no size or where the divisor
is zero. For extents in which some length lies, the checked budgets are found when a target is
split or copies are chosen, and they are those of wrapped arithmetic (`splitTarget?_eq`,
`fitRepetition?_eq`, `mostCopies?_eq`). The budget of a copy is only found if the least length of
all copies that are left is a size (`copyBudget?_eq`).

Rooms and shares are added and multiplied in 128 bits. There the exact results fit, so these
operations have no checked forms.
-/

namespace Exemplar

namespace Size

variable {left right : Nat}

/-- A sum that is a size is found. -/
theorem add?_eq (h : left + right < modulus) : add? left right = some (left + right) :=
  if_pos h

/-- A difference that is not negative is found. -/
theorem sub?_eq (h : right ≤ left) : sub? left right = some (left - right) :=
  if_pos h

/-- A product that is a size is found. -/
theorem mul?_eq (h : left * right < modulus) : mul? left right = some (left * right) :=
  if_pos h

/-- A quotient by a positive number is found. -/
theorem div?_eq (h : 0 < right) : div? left right = some (left / right) :=
  if_neg (Nat.ne_of_gt h)

/-- A size is narrowed to itself. -/
theorem narrow?_eq {number : Nat} (h : number < modulus) : narrow? number = some number :=
  if_pos h

/-- A sum of several numbers that is a size is found. -/
theorem total?_eq {numbers : List Nat} (h : total numbers < modulus) :
    total? numbers = some (total numbers) := by
  have hfold {numbers : List Nat} {start : Nat} (h : start + numbers.sum < modulus) :
      numbers.foldlM add? start = some (start + numbers.sum) := by
    induction numbers generalizing start with
    | nil => rfl
    | cons number numbers ih =>
      rw [List.sum_cons] at h ⊢
      rw [List.foldlM_cons, add?_eq (by omega), ← Nat.add_assoc]
      exact ih (by omega)
  have hsum := @hfold numbers 0 (by rw [Nat.zero_add]; exact h)
  rwa [Nat.zero_add] at hsum

end Size

namespace Extent

variable {parts : List Extent} {body extent : Extent} {least target : Nat} {most : Bound}

/-- A checked computation for each member of a list finds what is computed for each member. -/
theorem mapM_eq_some {α β : Type} {compute? : α → Option β} {compute : α → β}
    {items : List α} (h : ∀ item ∈ items, compute? item = some (compute item)) :
    items.mapM compute? = some (items.map compute) := by
  induction items with
  | nil => rfl
  | cons item items ih =>
    rw [List.forall_mem_cons] at h
    rw [List.mapM_cons, h.1, ih h.2]
    rfl

/-- The room of a string in whose extent some length lies is found. -/
theorem room?_eq (hvalid : extent.Valid) (slack : Nat) :
    room? slack extent = some (room slack extent) := by
  cases hmax : extent.max with
  | finite limit isSize =>
    rw [room_of_finite hvalid hmax]
    rw [Valid, hmax] at hvalid
    simp only [room?, hmax, Size.sub?_eq hvalid]
    rfl
  | unbounded => simp only [room?, room, hmax]

/-- Shares whose rooms are sizes are raised. -/
theorem topUp?_eq {shares : List (Nat × Nat)} (h : ∀ share ∈ shares, share.2 < Size.modulus)
    (remainder : Nat) : topUp? shares remainder = some (topUp shares remainder) := by
  induction shares generalizing remainder with
  | nil => rfl
  | cons head shares ih =>
    obtain ⟨share, room⟩ := head
    rw [List.forall_mem_cons] at h
    have hroom : room < Size.modulus := h.1
    rw [topUp?, topUp]
    by_cases hraise : 0 < remainder ∧ share < room
    · rw [if_pos hraise, if_pos hraise, Size.add?_eq (by omega), Size.sub?_eq hraise.1]
      simp only [Option.bind_eq_bind, Option.bind_some, ih h.2]
      rfl
    · rw [if_neg hraise, if_neg hraise, ih h.2]
      rfl

/-- A room is no larger than the slack. -/
theorem room_le (slack : Nat) (extent : Extent) : room slack extent ≤ slack := by
  unfold room
  split
  · exact Nat.min_le_right ..
  · exact Nat.le_refl slack

/-- The shares in proportion to rooms are found when there is room at all. -/
theorem shares?_eq {slack : Nat} (hslack : slack < Size.modulus) {rooms : List Nat}
    (h : Size.total rooms ≠ 0) :
    (rooms.mapM fun room ↦ do Size.narrow? (← Size.div? (slack * room) (Size.total rooms))) =
      some (rooms.map fun room ↦ slack * room / Size.total rooms) := by
  refine mapM_eq_some fun room hroom ↦ ?_
  -- A share is no larger than the slack, because a room is no larger than all rooms together.
  have hle : slack * room / Size.total rooms ≤ slack := by
    refine Nat.div_le_of_le_mul ?_
    rw [Nat.mul_comm]
    exact Nat.mul_le_mul_right slack (List.le_sum_of_mem hroom)
  rw [Size.div?_eq (Nat.pos_of_ne_zero h)]
  exact Size.narrow?_eq (Nat.lt_of_le_of_lt hle hslack)

/-- The budgets are found from the least lengths and the shares when they are sizes. -/
theorem budgets?_eq {shares : List Nat}
    (h : ∀ budget ∈ List.zipWith (fun part share ↦ part.min + share) parts shares,
      budget < Size.modulus) :
    ((parts.zip shares).mapM fun part ↦ Size.add? part.1.min part.2) =
      some (List.zipWith (fun part share ↦ part.min + share) parts shares) := by
  induction parts generalizing shares with
  | nil => rfl
  | cons part parts ih =>
    cases shares with
    | nil => rfl
    | cons share shares =>
      rw [List.zipWith_cons_cons, List.forall_mem_cons] at h
      rw [List.zip_cons_cons, List.mapM_cons, Size.add?_eq h.1, ih h.2]
      rfl

/-- A target is split among parts in whose extents some length lies. -/
theorem splitTarget?_eq (hvalid : ∀ part ∈ parts, part.Valid)
    (htarget : target < Size.modulus) :
    splitTarget? parts target = some (splitTarget parts target) := by
  have hslack : target - floorOf parts < Size.modulus := by omega
  have hrooms :=
    mapM_eq_some fun part hpart ↦ room?_eq (hvalid part hpart) (target - floorOf parts)
  have hbudgets (budget : Nat) (h : budget ∈ splitTarget parts target) : budget < Size.modulus :=
    lt_modulus_of_mem_splitTarget htarget h
  unfold splitTarget? splitTarget
  unfold splitTarget at hbudgets
  simp only [hrooms, Option.bind_eq_bind, Option.bind_some] at hbudgets ⊢
  by_cases hzero : Size.total (parts.map (room (target - floorOf parts))) = 0
  · rw [if_pos hzero, if_pos hzero]
    rfl
  have hshares := shares?_eq hslack hzero
  have hsum : Size.total _ ≤ target - floorOf parts := sum_shares_le _ hzero
  simp only [if_neg hzero, Option.bind_eq_bind] at hbudgets hshares ⊢
  generalize (parts.map (room (target - floorOf parts))).map _ = shares at *
  rw [hshares, Option.bind_some, Size.total?_eq (Nat.lt_of_le_of_lt hsum hslack), Option.bind_some,
    Size.sub?_eq hsum, Option.bind_some, topUp?_eq ?_, Option.bind_some]
  · exact budgets?_eq hbudgets
  · intro share hshare
    obtain ⟨part, -, hroom⟩ := List.mem_map.1 (List.of_mem_zip hshare).2
    rw [← hroom]
    exact Nat.lt_of_le_of_lt (room_le ..) hslack

/-- The number of copies and the length of each are always found. -/
theorem fitRepetition?_eq (body : Extent) (least : Nat) (most : Bound) (target : Nat) :
    fitRepetition? body least most target = some (fitRepetition body least most target) := by
  by_cases hfits : (body.max * most).IsWithin target
  · rw [fitRepetition_of_isWithin least hfits]
    exact if_pos hfits
  by_cases hshort : target < Size.mulCapped least body.min
  · rw [fitRepetition_of_short hfits hshort, fitRepetition?, if_neg hfits, if_pos hshort]
  cases hfull : fitRepetition.fullCopies body least target with
  | some each =>
    obtain ⟨-, -, hpos, -⟩ := fitRepetition.fullCopies_eq_some hfull
    rw [fitRepetition_of_full hfits hshort hfull]
    simp only [fitRepetition?, if_neg hfits, if_neg hshort, hfull, Size.div?_eq hpos]
    rfl
  | none =>
    rw [fitRepetition_of_even hfits hshort hfull]
    have hone : 0 < Max.max body.min 1 := by omega
    simp only [fitRepetition?, if_neg hfits, if_neg hshort, hfull, Size.div?_eq hone,
      Option.bind_eq_bind, Option.bind_some]
    by_cases hzero : evenCount body least most target = 0
    · rw [if_pos hzero]
      exact if_pos hzero
    · rw [if_neg hzero]
      refine (if_neg hzero).trans ?_
      show (Size.div? target (evenCount body least most target)).bind _ = _
      rw [Size.div?_eq (Nat.pos_of_ne_zero hzero)]
      rfl

/-- The largest number of copies worth writing is always found. -/
theorem mostCopies?_eq (body : Extent) (least : Nat) (most : Bound) (budget : Option Nat) :
    mostCopies? body least most budget = some (mostCopies body least most budget) := by
  cases most with
  | finite limit isSize => rfl
  | unbounded =>
    cases budget with
    | none => rfl
    | some budget =>
      have hpos : 0 < (body.max.finite?.filter (0 < ·)).getD (Max.max body.min 1) := by
        cases hfilter : body.max.finite?.filter (0 < ·) with
        | none =>
          rw [Option.getD_none]
          omega
        | some each => simpa using (Option.filter_eq_some_iff.1 hfilter).2
      simp only [mostCopies?, mostCopies, Size.div?_eq hpos]
      rfl

/-- The budget of a copy is no larger than the budget of all of them or the least length of a
copy. -/
theorem copyBudget?_eq {left budget : Nat} (hleft : 0 < left) (hbudget : budget < Size.modulus)
    (hleast : least < Size.modulus) (hcopies : left * least < Size.modulus) :
    copyBudget? least left budget = some (copyBudget least left budget) ∧
      copyBudget least left budget ≤ Max.max budget least := by
  have hshare := Nat.div_le_self (budget - left * least) left
  have hone : least ≤ left * least := Nat.le_mul_of_pos_left least hleft
  have hle : least + (budget - left * least) / left ≤ Max.max budget least := by
    rcases Nat.le_total (left * least) budget with hfits | hshort
    · omega
    · rw [Nat.sub_eq_zero_of_le hshort, Nat.zero_div]
      exact Nat.le_max_right ..
  have hsum : least + (budget - left * least) / left < Size.modulus := by omega
  rw [copyBudget, Size.mulWrapped_eq hcopies, Size.addWrapped_eq hsum, copyBudget?,
    Size.mul?_eq hcopies]
  simp only [Option.bind_eq_bind, Option.bind_some, Size.div?_eq hleft]
  exact ⟨Size.add?_eq hsum, hle⟩

example : copyBudget? (0x7FFFFFFF * 0x7FFFFFFF) 5 0 = none := by decide

end Extent

end Exemplar
