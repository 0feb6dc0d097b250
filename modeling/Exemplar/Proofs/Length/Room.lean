import Exemplar.Proofs.Length.Budget

/-!
# What a target leaves room for

A part that is sized has room between its least length and its bound. A target that does not exceed
the least length leaves nothing to hand out: every part gets its least length and every copy that
of the body (`splitTarget_of_le_floorOf`, `fitRepetition_of_le_floor`). A target that the bound
does not exceed gives every part and every copy all the room that it has (`isWithin_splitTarget`,
`isWithin_copy`). A string of fixed length has no room at all, and so do its parts (`IsFixed`).

Targets are `Interchangeable` for an extent when they are on the same side of it. A part without
others beside it gets the target itself or a target that is interchangeable with it
(`splitTarget_alone`, `fitRepetition_one`).
-/

namespace Exemplar

namespace Extent

open List (Forall₂)

variable {body extent first second : Extent} {parts options : List Extent}
  {least target slack : Nat} {most : Bound}

/-- The room of a string with a bound is the difference to the bound, as far as there is slack. -/
theorem room_of_finite (hvalid : extent.Valid) {limit : Nat} {isSize : limit < Size.modulus}
    (hmax : extent.max = .finite limit isSize) (slack : Nat) :
    room slack extent = Min.min (limit - extent.min) slack := by
  rw [Valid, hmax] at hvalid
  have hle : extent.min ≤ limit := hvalid
  simp only [room, hmax]
  rw [Size.subWrapped_eq hle isSize]

/-! ## Strings of one length -/

/-- All strings have the least length. -/
def IsFixed (extent : Extent) : Prop :=
  extent.max = .ofExact extent.min

instance (extent : Extent) : Decidable extent.IsFixed :=
  inferInstanceAs (Decidable (extent.max = .ofExact extent.min))

/-- A string of one length has no room. -/
theorem IsFixed.room_eq_zero (h : extent.IsFixed) (slack : Nat) : room slack extent = 0 := by
  rw [IsFixed, Bound.ofExact_of_lt extent.min_lt] at h
  have hvalid : extent.Valid := by
    rw [Valid, h]
    exact Nat.le_refl _
  rw [room_of_finite hvalid h, Nat.sub_self, Nat.zero_min]

/-- Two strings in a row of one length have one length each. -/
theorem IsFixed.of_followedBy (h : (first.followedBy second).IsFixed) (hfirst : first.Valid)
    (hsecond : second.Valid) : first.IsFixed ∧ second.IsFixed := by
  have hlargest : Size.largest = Size.modulus - 1 := rfl
  rw [IsFixed, Bound.ofExact_of_lt (min_lt _)] at h
  obtain ⟨left, right, hleft, hright, hmax, hmax', hsum⟩ := Bound.exists_of_add_eq_finite h
  have hsum : left + right = Min.min (first.min + second.min) Size.largest := hsum
  rw [Valid, hmax] at hfirst
  rw [Valid, hmax'] at hsecond
  have hfirst : first.min ≤ left := hfirst
  have hsecond : second.min ≤ right := hsecond
  rw [IsFixed, IsFixed, hmax, hmax', ← Bound.ofExact_of_lt hleft, ← Bound.ofExact_of_lt hright]
  exact ⟨congrArg _ (by omega), congrArg _ (by omega)⟩

/-- Strings in a row of one length have one length each. -/
theorem IsFixed.of_inSequence (h : (inSequence parts).IsFixed)
    (hvalid : ∀ part ∈ parts, part.Valid) :
    ∀ part ∈ parts, part.IsFixed := by
  induction parts with
  | nil => exact fun _ hpart ↦ (List.not_mem_nil hpart).elim
  | cons part parts ih =>
    obtain ⟨hpart, hparts⟩ := List.forall_mem_cons.1 hvalid
    obtain ⟨hfirst, hrest⟩ := IsFixed.of_followedBy h hpart (valid_inSequence hparts)
    exact List.forall_mem_cons.2 ⟨hfirst, ih hrest hparts⟩

/-- Options that have one length together have one length each. -/
theorem IsFixed.of_anyOf (h : (anyOf options).IsFixed) {option : Extent}
    (hoption : option ∈ options) (hvalid : option.Valid) : option.IsFixed := by
  obtain ⟨hfloor, hceiling⟩ := within_anyOf hoption
  rw [IsFixed, Bound.ofExact_of_lt (min_lt _)] at h
  rw [h] at hceiling
  -- The bound of the option lies between its least length and the only length of all options.
  cases hmax : option.max with
  | finite limit isSize =>
    rw [hmax] at hceiling
    rw [Valid, hmax] at hvalid
    have hle : limit ≤ (anyOf options).min := hceiling
    have hvalid : option.min ≤ limit := hvalid
    rw [IsFixed, hmax, ← Bound.ofExact_of_lt isSize]
    exact congrArg _ (by omega)
  | unbounded =>
    rw [hmax] at hceiling
    cases hceiling

/-- Copies that have one length other than zero together are copies of a body of one length in a
number that is fixed. -/
theorem IsFixed.of_repeated (h : (body.repeated least most).IsFixed)
    (hpos : 0 < (body.repeated least most).min) (hvalid : body.Valid) (hmost : most.Allows least) :
    body.IsFixed ∧ 0 < body.min ∧ most = .ofExact least := by
  have hlargest : Size.largest = Size.modulus - 1 := rfl
  have hmin : (body.repeated least most).min = Min.min (body.min * least) Size.largest := rfl
  rw [hmin] at hpos
  have hbody : 0 < body.min :=
    Nat.pos_of_mul_pos_right (Nat.lt_of_lt_of_le hpos (Nat.min_le_left ..))
  have hleast : 0 < least := Nat.pos_of_mul_pos_left (Nat.lt_of_lt_of_le hpos (Nat.min_le_left ..))
  rw [IsFixed, Bound.ofExact_of_lt (min_lt _)] at h
  obtain ⟨each, count, heach, hcount, hmax, rfl, hprod⟩ :=
    Bound.exists_of_mul_eq_finite h (hvalid.mono hbody) (hmost.mono hleast)
  rw [Valid, hmax] at hvalid
  have hvalid : body.min ≤ each := hvalid
  have hmost : least ≤ count := hmost
  -- Neither factor exceeds its least value, because their product does not exceed the least one.
  have hle := Nat.mul_le_mul hvalid hmost
  have hprod : each * count = body.min * least := by omega
  have heq : each = body.min := by
    refine Nat.le_antisymm (Nat.le_of_mul_le_mul_right ?_ hleast) hvalid
    rw [← hprod]
    exact Nat.mul_le_mul_left each hmost
  subst heq
  rw [IsFixed, hmax, ← Bound.ofExact_of_lt heach, ← Bound.ofExact_of_lt hcount]
  exact ⟨rfl, hbody, congrArg _ (Nat.eq_of_mul_eq_mul_left hbody hprod)⟩

/-! ## Parts in a row -/

/-- Without slack no part has room. -/
theorem room_zero (extent : Extent) : room 0 extent = 0 := by
  unfold room
  split
  · exact Nat.min_zero _
  · rfl

/-- Parts without room get their least lengths. -/
theorem splitTarget_of_room_eq_zero
    (h : ∀ part ∈ parts, room (target - floorOf parts) part = 0) :
    splitTarget parts target = parts.map (·.min) := by
  unfold splitTarget
  refine if_pos ?_
  rw [List.map_congr_left h]
  show (parts.map fun _ ↦ 0).sum = 0
  simp

/-- Parts in a row get their least lengths from a target that does not exceed the sum of these. -/
theorem splitTarget_of_le_floorOf (h : target ≤ floorOf parts) :
    splitTarget parts target = parts.map (·.min) :=
  splitTarget_of_room_eq_zero fun part _ ↦ by rw [Nat.sub_eq_zero_of_le h, room_zero]

/-- Parts of one length get this length from every target. -/
theorem splitTarget_of_isFixed (h : ∀ part ∈ parts, part.IsFixed) (target : Nat) :
    splitTarget parts target = parts.map (·.min) :=
  splitTarget_of_room_eq_zero fun part hpart ↦ (h part hpart).room_eq_zero _

/-- The least lengths of parts in a row and their rooms add up to no more than the bound of all
parts. -/
theorem sum_min_add_room_le (hvalid : ∀ part ∈ parts, part.Valid) {limit : Nat}
    {isSize : limit < Size.modulus} (hmax : (inSequence parts).max = .finite limit isSize)
    (slack : Nat) : (parts.map (·.min)).sum + (parts.map (room slack)).sum ≤ limit := by
  induction parts generalizing limit with
  | nil => exact Nat.zero_le _
  | cons part parts ih =>
    obtain ⟨hpart, hparts⟩ := List.forall_mem_cons.1 hvalid
    obtain ⟨left, right, hleft, hright, hfirst, hrest, rfl⟩ :=
      Bound.exists_of_add_eq_finite hmax
    have hsum := ih hparts hrest
    have hroom := room_of_finite hpart hfirst slack
    rw [Valid, hfirst] at hpart
    have hpart : part.min ≤ left := hpart
    simp only [List.map_cons, List.sum_cons]
    omega

/-- A part has all its room when the slack reaches from the least lengths of the parts to the bound
of all of them. -/
theorem isWithin_min_add_room (hvalid : ∀ part ∈ parts, part.Valid) {limit : Nat}
    {isSize : limit < Size.modulus} (hmax : (inSequence parts).max = .finite limit isSize)
    (hslack : limit ≤ (parts.map (·.min)).sum + slack) :
    ∀ part ∈ parts, part.max.IsWithin (part.min + room slack part) := by
  induction parts generalizing limit with
  | nil => exact fun _ hpart ↦ (List.not_mem_nil hpart).elim
  | cons part parts ih =>
    obtain ⟨hpart, hparts⟩ := List.forall_mem_cons.1 hvalid
    obtain ⟨left, right, hleft, hright, hfirst, hrest, rfl⟩ :=
      Bound.exists_of_add_eq_finite hmax
    have hsum := sum_min_add_room_le hparts hrest 0
    have hroom := room_of_finite hpart hfirst slack
    rw [Valid, hfirst] at hpart
    have hpart : part.min ≤ left := hpart
    simp only [List.map_cons, List.sum_cons] at hslack
    refine List.forall_mem_cons.2 ⟨?_, ih hparts hrest (by omega)⟩
    rw [hfirst]
    show left ≤ part.min + room slack part
    omega

/-- Topping up takes nothing away from a share. -/
theorem le_topUp (shares : List (Nat × Nat)) (remainder : Nat) :
    Forall₂ (fun share raised ↦ share.1 ≤ raised) shares (topUp shares remainder) := by
  induction shares generalizing remainder with
  | nil => exact .nil
  | cons share shares ih =>
    obtain ⟨share, room⟩ := share
    rw [topUp]
    split
    · exact .cons (Nat.le_succ share) (ih _)
    · exact .cons (Nat.le_refl share) (ih _)

/-- Shares in proportion to the rooms fill the rooms when there is no less slack than room. -/
theorem room_le_shares (hpos : Size.total (parts.map (room slack)) ≠ 0)
    (h : Size.total (parts.map (room slack)) ≤ slack) (remainder : Nat) :
    Forall₂ (fun part raised ↦ room slack part ≤ raised) parts
      (topUp (((parts.map (room slack)).map
        fun room ↦ slack * room / Size.total (parts.map (Extent.room slack))).zip
          (parts.map (room slack))) remainder) := by
  have hshare (part : Extent) : room slack part ≤
      slack * room slack part / Size.total (parts.map (room slack)) := by
    rw [Nat.le_div_iff_mul_le (Nat.pos_of_ne_zero hpos), Nat.mul_comm]
    exact Nat.mul_le_mul_right _ h
  generalize Size.total (parts.map (room slack)) = total at hshare
  rw [List.map_map, List.zip_map']
  have hraised :=
    le_topUp (parts.map fun part ↦ (slack * room slack part / total, room slack part)) remainder
  rw [List.forall₂_map_left_iff] at hraised
  exact hraised.imp fun part raised hle ↦ Nat.le_trans (hshare part) hle

/-- A target that the bound of parts in a row does not exceed gives every part a budget that its
own bound does not exceed. -/
theorem isWithin_splitTarget (hvalid : ∀ part ∈ parts, part.Valid)
    (h : (inSequence parts).max.IsWithin target) :
    Forall₂ (fun part budget ↦ part.max.IsWithin budget) parts (splitTarget parts target) := by
  have hlargest : Size.largest = Size.modulus - 1 := rfl
  cases hmax : (inSequence parts).max with
  | unbounded =>
    rw [hmax] at h
    cases h
  | finite limit isSize =>
    rw [hmax] at h
    have h : limit ≤ target := h
    have hfloor := floorOf_eq parts
    have hsum := sum_min_add_room_le hvalid hmax (target - floorOf parts)
    have hroom := isWithin_min_add_room hvalid hmax
      (show limit ≤ (parts.map (·.min)).sum + (target - floorOf parts) by omega)
    by_cases hzero : Size.total (parts.map (room (target - floorOf parts))) = 0
    · have hnone : ∀ part ∈ parts, room (target - floorOf parts) part = 0 := by
        simpa [List.sum_eq_zero_iff] using (show (parts.map _).sum = 0 from hzero)
      rw [splitTarget_of_room_eq_zero hnone, List.forall₂_map_right_iff, List.forall₂_same]
      intro part hpart
      have hall := hroom part hpart
      rwa [hnone part hpart] at hall
    · have htotal : Size.total (parts.map (room (target - floorOf parts))) ≤
          target - floorOf parts := by
        show (parts.map (room (target - floorOf parts))).sum ≤ _
        omega
      have hraised := room_le_shares hzero htotal (target - floorOf parts - Size.total
        ((parts.map (room (target - floorOf parts))).map fun share ↦
          (target - floorOf parts) * share /
          Size.total (parts.map (room (target - floorOf parts)))))
      have hzip {parts : List Extent} {slack : Nat}
          (hroom : ∀ part ∈ parts, part.max.IsWithin (part.min + room slack part))
            {raised : List Nat}
          (hraised : Forall₂ (fun part raised ↦ room slack part ≤ raised) parts raised) :
          Forall₂ (fun part budget ↦ part.max.IsWithin budget) parts
            (List.zipWith (fun part share ↦ part.min + share) parts raised) := by
        induction hraised with
        | nil => exact .nil
        | cons hhead htail ih =>
          obtain ⟨hone, hall⟩ := List.forall_mem_cons.1 hroom
          exact .cons (hone.mono (Nat.add_le_add_left hhead _)) (ih hall)
      have hbudgets := hzip hroom hraised
      rwa [splitTarget, if_neg hzero]

/-- The empty string in a row changes no extent. -/
theorem inSequence_replicate_zero (count : Nat) :
    inSequence (List.replicate count zero) = zero := by
  induction count with
  | zero => rfl
  | succ count ih => rw [List.replicate_succ, inSequence, ih, followedBy_zero]

/-- Topping up without a remainder keeps the shares. -/
theorem topUp_zero (shares : List (Nat × Nat)) : topUp shares 0 = shares.map (·.1) := by
  induction shares with
  | nil => rfl
  | cons share shares ih =>
    obtain ⟨share, room⟩ := share
    rw [topUp, if_neg (by simp), ih, List.map_cons]

/-- The empty string has no room. -/
theorem room_zero_extent (slack : Nat) : room slack zero = 0 := by
  have hfixed : zero.IsFixed := (Bound.ofExact_of_lt Size.zero_lt_modulus).symm
  exact hfixed.room_eq_zero slack

/-- A string without room for a target has one length, or the target does not exceed its least
length. -/
theorem of_room_eq_zero (hvalid : extent.Valid) (h : room (target - extent.min) extent = 0) :
    target ≤ extent.min ∨ extent.IsFixed := by
  cases hmax : extent.max with
  | unbounded =>
    rw [room, hmax] at h
    exact .inl (Nat.le_of_sub_eq_zero h)
  | finite limit isSize =>
    rw [room_of_finite hvalid hmax] at h
    rw [Valid, hmax] at hvalid
    have hvalid : extent.min ≤ limit := hvalid
    rw [IsFixed, hmax, ← Bound.ofExact_of_lt isSize]
    rcases Nat.le_total target extent.min with hle | hle
    · exact .inl hle
    · by_cases hfixed : limit = extent.min
      · exact .inr (congrArg _ hfixed)
      · exact .inl (by omega)

/-- A part between empty strings gets the target, except that it gets its least length when the
target is no longer or when it has no other length. -/
theorem splitTarget_alone (hvalid : extent.Valid) (target before after : Nat) :
    ∃ budget,
      (budget = target ∨ (target ≤ extent.min ∨ extent.IsFixed) ∧ budget = extent.min) ∧
      splitTarget (List.replicate before zero ++ extent :: List.replicate after zero) target =
        List.replicate before 0 ++ budget :: List.replicate after 0 := by
  have hfloor : floorOf (List.replicate before zero ++ extent :: List.replicate after zero) =
      extent.min := by
    rw [floorOf, inSequence_append, inSequence, inSequence_replicate_zero,
      inSequence_replicate_zero, zero_followedBy, followedBy_zero]
  by_cases hroom : room (target - extent.min) extent = 0
  · refine ⟨extent.min, .inr ⟨of_room_eq_zero hvalid hroom, rfl⟩, ?_⟩
    rw [splitTarget_of_room_eq_zero]
    · simp [zero]
    · simp only [hfloor, List.mem_append, List.mem_cons, List.mem_replicate]
      rintro part (⟨-, rfl⟩ | rfl | ⟨-, rfl⟩)
      · exact room_zero_extent _
      · exact hroom
      · exact room_zero_extent _
  · refine ⟨target, .inl rfl, ?_⟩
    -- The whole slack is the share of the part, and nothing is left over.
    have htotal (share : Nat) :
        Size.total (List.replicate before 0 ++ share :: List.replicate after 0) = share := by
      show (List.replicate before 0 ++ _).sum = _
      simp
    have htarget : extent.min ≤ target := by
      by_contra hlt
      rw [Nat.sub_eq_zero_of_le (Nat.le_of_not_le hlt), room_zero] at hroom
      exact hroom rfl
    unfold splitTarget
    simp only [hfloor, List.map_append, List.map_cons, List.map_replicate, room_zero_extent, htotal]
    rw [if_neg hroom]
    simp only [Nat.mul_zero, Nat.zero_div]
    rw [Nat.mul_div_cancel _ (Nat.pos_of_ne_zero hroom), htotal, Nat.sub_self, topUp_zero,
      List.map_fst_zip (by simp), List.zipWith_append (by simp), List.zipWith_cons_cons,
      Nat.add_sub_cancel' htarget]
    simp [zero]

/-! ## Repetitions -/

/-- Copies get the least length of the body, and are the fewest, for a target that does not exceed
the least length of all copies. -/
theorem fitRepetition_of_le_floor (hvalid : body.Valid) (hmost : most.Allows least)
    (hpos : 0 < body.min * least) (hsize : body.min * least < Size.largest)
    (h : target ≤ body.min * least) :
    fitRepetition body least most target = (.ofExact least, body.min) := by
  have hlargest : Size.largest = Size.modulus - 1 := rfl
  have hbody : 0 < body.min := Nat.pos_of_mul_pos_right hpos
  have hleast : 0 < least := Nat.pos_of_mul_pos_left hpos
  have hcopies : (body.max * most).Allows (body.min * least) := Bound.Allows.mul hvalid hmost
  unfold fitRepetition
  split
  · -- The longest copies fit where the shortest ones do, so all of them have one length.
    rename_i hfits
    cases hprod : body.max * most with
    | unbounded =>
      rw [hprod] at hfits
      cases hfits
    | finite limit isSize =>
      rw [hprod] at hfits hcopies
      have hfits : limit ≤ target := hfits
      have hcopies : body.min * least ≤ limit := hcopies
      have hmin : (body.repeated least most).min = body.min * least := Nat.min_eq_left (by omega)
      have hfixed : (body.repeated least most).IsFixed := by
        rw [IsFixed, hmin]
        show body.max * most = _
        rw [hprod, ← Bound.ofExact_of_lt isSize]
        exact congrArg _ (by omega)
      obtain ⟨hone, -, rfl⟩ := hfixed.of_repeated (hmin ▸ hpos) hvalid hmost
      rw [IsFixed, Bound.ofExact_of_lt body.min_lt] at hone
      rw [hone]
      rfl
  · split
    · rfl
    · rename_i hshort
      rw [Size.mulCapped_eq (by rw [Nat.mul_comm]; omega), Nat.mul_comm] at hshort
      have heq : target = body.min * least := by omega
      subst heq
      have hcount : body.min * least / body.min = least := Nat.mul_div_cancel_left least hbody
      simp only
      split
      · rename_i each heach
        obtain ⟨isSize, hmax, -, hfull⟩ := fitRepetition.fullCopies_eq_some heach
        rw [Valid, hmax] at hvalid
        have hvalid : body.min ≤ each := hvalid
        have hfull : each * least ≤ body.min * least := by
          rw [Size.mulCapped, Nat.mul_comm] at hfull
          omega
        have hone : each = body.min :=
          Nat.le_antisymm (Nat.le_of_mul_le_mul_right hfull hleast) hvalid
        subst hone
        rw [hcount, Nat.max_eq_right (Nat.min_le_left ..)]
      · rw [Nat.max_eq_left hbody, hcount, Nat.max_eq_right (Nat.min_le_right ..),
          if_neg (Nat.ne_of_gt hleast), Nat.mul_div_cancel _ hleast, Nat.max_self]

/-- A target that the bound of all copies does not exceed keeps their number, and they get the full
length of the body. -/
theorem fitRepetition_of_isWithin (least : Nat) (h : (body.max * most).IsWithin target) :
    fitRepetition body least most target = (most, body.max.finite?.getD body.min) :=
  if_pos h

/-- If the bound of all copies does not exceed some target, the full length of the body is its
bound. -/
theorem isWithin_copy (hmost : most.Allows 1) (h : (body.max * most).IsWithin target) :
    body.max.IsWithin (body.max.finite?.getD body.min) := by
  cases hmax : body.max with
  | finite limit isSize => exact Nat.le_refl limit
  | unbounded =>
    rw [hmax] at h
    cases most with
    | unbounded => cases h
    | finite count isSize =>
      cases count with
      | zero => exact absurd hmost (Nat.not_succ_le_zero 0)
      | succ count => cases h

/-! ## Targets on the same side of an extent -/

/-- The targets are the same, or neither of them exceeds the least length, or the bound exceeds
neither of them. -/
def Interchangeable (extent : Extent) (target target' : Nat) : Prop :=
  target = target' ∨ (target ≤ extent.min ∧ target' ≤ extent.min) ∨
    extent.max.IsWithin target ∧ extent.max.IsWithin target'

/-- The budgets are the same, or neither of them exceeds the least length, or the strings have one
length. -/
def Indifferent (extent : Extent) (budget budget' : Nat) : Prop :=
  budget = budget' ∨ (budget ≤ extent.min ∧ budget' ≤ extent.min) ∨ extent.IsFixed

/-- A part without others beside it gets a budget that makes no other difference. -/
theorem indifferent_of_alone {budget : Nat}
    (h : budget = target ∨ (target ≤ extent.min ∨ extent.IsFixed) ∧ budget = extent.min) :
    extent.Indifferent target budget := by
  rcases h with rfl | ⟨hside | hfixed, rfl⟩
  · exact .inl rfl
  · exact .inr (.inl ⟨hside, Nat.le_refl _⟩)
  · exact .inr (.inr hfixed)

/-- A part without others beside it gets a target that may take the place of the whole target. -/
theorem interchangeable_of_alone {budget : Nat}
    (h : budget = target ∨ (target ≤ extent.min ∨ extent.IsFixed) ∧ budget = extent.min) :
    extent.Interchangeable budget target := by
  rcases h with rfl | ⟨hside, rfl⟩
  · exact .inl rfl
  · rcases Nat.le_total target extent.min with hle | hle
    · exact .inr (.inl ⟨Nat.le_refl _, hle⟩)
    · rcases hside with hside | hfixed
      · exact .inr (.inl ⟨Nat.le_refl _, hside⟩)
      · rw [IsFixed, Bound.ofExact_of_lt extent.min_lt] at hfixed
        refine .inr (.inr ⟨?_, ?_⟩) <;> rw [hfixed]
        · exact Nat.le_refl _
        · exact hle

/-- One copy of a body gets a target that may take the place of the whole target. -/
theorem fitRepetition_one (extent : Extent) (target : Nat) :
    (fitRepetition extent 1 1 target).1 = 1 ∧
      extent.Interchangeable (fitRepetition extent 1 1 target).2 target := by
  have hmin := extent.min_lt
  unfold fitRepetition
  rw [Bound.mul_one, Size.mulCapped_eq (by omega), Nat.one_mul]
  split
  · rename_i hfits
    refine ⟨rfl, .inr (.inr ⟨?_, hfits⟩)⟩
    cases hmax : extent.max with
    | finite limit isSize => exact Nat.le_refl limit
    | unbounded =>
      rw [hmax] at hfits
      cases hfits
  · rename_i hfits
    split
    · rename_i hshort
      exact ⟨Bound.ofExact_of_lt Size.one_lt_modulus,
        .inr (.inl ⟨Nat.le_refl _, Nat.le_of_lt hshort⟩)⟩
    · rename_i hshort
      simp only
      split
      · -- The full length does not fit even once.
        rename_i each heach
        obtain ⟨isSize, hmax, -, hfull⟩ := fitRepetition.fullCopies_eq_some heach
        rw [Size.mulCapped_eq (by omega), Nat.one_mul] at hfull
        rw [hmax] at hfits
        exact absurd hfull hfits
      · have hceiling : (1 : Bound).finite?.getD Size.largest = 1 := rfl
        rw [hceiling, Nat.max_eq_right (Nat.le_trans (Nat.min_le_left ..) (Nat.min_le_right ..)),
          if_neg Nat.one_ne_zero, Nat.div_one, Nat.max_eq_left (Nat.le_of_not_lt hshort)]
        exact ⟨Bound.ofExact_of_lt Size.one_lt_modulus, .inl rfl⟩

/-! ## Budgets -/

/-- The first part of a row gets its least length from a budget that does not exceed the least
lengths. -/
theorem firstBudget_of_le_floorOf {part : Extent} (h : target ≤ floorOf (part :: parts)) :
    firstBudget (part :: parts) target = part.min := by
  rw [firstBudget, splitTarget_of_le_floorOf h]
  rfl

/-- A part with only empty strings behind it gets a budget that makes no other difference. -/
theorem indifferent_firstBudget (hvalid : extent.Valid) (target after : Nat) :
    extent.Indifferent target (firstBudget (extent :: List.replicate after zero) target) := by
  obtain ⟨budget, hbudget, hsplit⟩ := splitTarget_alone hvalid target 0 after
  have hfirst : firstBudget (extent :: List.replicate after zero) target = budget :=
    congrArg (List.headD · 0) hsplit
  exact hfirst ▸ indifferent_of_alone hbudget

/-- The first part of a row of parts of one length gets this length. -/
theorem firstBudget_of_isFixed {part : Extent} (h : ∀ other ∈ part :: parts, other.IsFixed)
    (target : Nat) : firstBudget (part :: parts) target = part.min := by
  rw [firstBudget, splitTarget_of_isFixed h]
  rfl

/-- A budget that does not exceed the least length of the fewest copies is not worth more copies. -/
theorem mostCopies_unbounded_of_le (hvalid : body.Valid) (h : target ≤ body.min * least) :
    mostCopies body least .unbounded (some target) = least := by
  have heach : body.min ≤ (body.max.finite?.filter (0 < ·)).getD (Max.max body.min 1) := by
    cases hmax : body.max with
    | unbounded => exact Nat.le_max_left ..
    | finite limit isSize =>
      rw [Valid, hmax] at hvalid
      cases limit with
      | zero => exact Nat.le_max_left ..
      | succ limit => exact hvalid
  exact Nat.max_eq_right (Nat.div_le_of_le_mul (Nat.le_trans h (Nat.mul_le_mul_right least heach)))

/-- A copy gets the least length of the body from a budget that does not exceed the least length of
all the copies that are left. -/
theorem copyBudget_of_le {left : Nat} (hmin : least < Size.modulus)
    (hsize : left * least < Size.modulus) (h : target ≤ left * least) :
    copyBudget least left target = least := by
  rw [copyBudget, Size.mulWrapped_eq hsize, Nat.sub_eq_zero_of_le h, Nat.zero_div,
    Size.addWrapped_eq hmin]
  rfl

/-- The only copy gets the budget, or the least length of the body if that is more. -/
theorem copyBudget_one (extent : Extent) (htarget : target < Size.modulus) :
    extent.Indifferent target (copyBudget extent.min 1 target) := by
  have hmin := extent.min_lt
  have hbudget : copyBudget extent.min 1 target = Max.max target extent.min := by
    rw [copyBudget, Size.mulWrapped_eq (by omega), Nat.one_mul, Nat.div_one,
      Size.addWrapped_eq (by omega)]
    omega
  rw [hbudget]
  rcases Nat.le_total target extent.min with hle | hle
  · exact .inr (.inl ⟨hle, by omega⟩)
  · exact .inl (Nat.max_eq_left hle).symm

end Extent

end Exemplar
