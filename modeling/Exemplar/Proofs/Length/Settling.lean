import Exemplar.Proofs.Length.Fitting
import Exemplar.Proofs.Length.Limits
import Exemplar.Proofs.Length.Refitting

/-!
# Sized trees are settled

A tree suits a target when sizing for the target, without caps on its groups, leaves it as it is.
Sizing a tree without backreferences makes a tree that suits the target, and all targets that its
new bound does not exceed (`settles`). So it makes no difference to size such a tree twice for one
target (`sized_again`), whether or not the target can be reached.
-/

namespace Exemplar.Regex

open List (Forall₂)

variable {tree result body : Regex} {parts options results : List Regex} {target : Nat}

/-- Sizing for the target leaves the tree as it is when no group has a cap. -/
def Suits (tree : Regex) (target : Nat) : Prop :=
  ∀ plan, ((tree.resize (fun _ ↦ none) target).run plan).1 = tree

/-- What the second tree has to be like when it was made from the first one by sizing for the
target. The least length is the same, some length lies in the extent, and no string is longer than
a target that can be reached. Sizing for the target again changes nothing, nor does sizing for a
target that the bound does not exceed. -/
structure IsSettled (tree result : Regex) (target : Nat) : Prop where
  minLength : result.minLength = tree.minLength
  valid : result.extent.Valid
  isWithin : tree.minLength ≤ target → target < Size.largest →
  result.maxLength.IsWithin target
  again : result.Suits target
  suits : ∀ ⦃larger : Nat⦄, result.maxLength.IsWithin larger → result.Suits larger

/-- Each tree of the second list was made from the tree of the first one by sizing for its own
target. -/
inductive AreSettled : List Regex → List Regex → List Nat → Prop
  | nil : AreSettled [] [] []
  | cons {part result : Regex} {parts results : List Regex} {target : Nat} {targets : List Nat} :
      IsSettled part result target → AreSettled parts results targets →
        AreSettled (part :: parts) (result :: results) (target :: targets)

namespace AreSettled

variable {targets : List Nat}

/-- The least lengths are the same. -/
theorem minLength (h : AreSettled parts results targets) :
    Forall₂ (fun part result ↦ result.minLength = part.minLength) parts results := by
  induction h with
  | nil => exact .nil
  | cons hhead htail ih => exact .cons hhead.minLength ih

/-- Some length lies in each extent. -/
theorem valid (h : AreSettled parts results targets) :
    ∀ result ∈ results, result.extent.Valid := by
  induction h with
  | nil => exact fun _ hresult ↦ (List.not_mem_nil hresult).elim
  | cons hhead htail ih => exact List.forall_mem_cons.2 ⟨hhead.valid, ih⟩

/-- No string is longer than a target that can be reached. -/
theorem keepsTo (h : AreSettled parts results targets)
    (hfloor : Forall₂ (fun part target ↦ part.minLength ≤ target) parts targets) :
    Forall₂ (fun result ↦ result.extent.KeepsTo) results targets := by
  induction h with
  | nil => exact .nil
  | cons hhead htail ih =>
    cases hfloor with
    | cons hle hrest => exact .cons (hhead.isWithin hle) (ih hrest)

/-- Each tree suits its target. -/
theorem again (h : AreSettled parts results targets) : Forall₂ Suits results targets := by
  induction h with
  | nil => exact .nil
  | cons hhead htail ih => exact .cons hhead.again ih

/-- Each tree suits the targets that its bound does not exceed. -/
theorem suits (h : AreSettled parts results targets) {others : List Nat}
    (hmax : Forall₂ (fun result target ↦ result.maxLength.IsWithin target) results others) :
    Forall₂ Suits results others := by
  induction h generalizing others with
  | nil =>
    cases hmax
    exact .nil
  | cons hhead htail ih =>
    cases hmax with
    | cons hone hrest => exact .cons (hhead.suits hone) (ih hrest)

end AreSettled

/-- Sizing the tree for any target makes a tree that is settled. -/
def Settles (tree : Regex) : Prop :=
  ∀ ⦃target : Nat⦄, target < Size.modulus → ∀ plan,
    IsSettled tree ((tree.resize (fun _ ↦ none) target).run plan).1 target

/-! ## Parts and options -/

/-- Parts in a row stay as they are when each part suits its target. -/
theorem resizeParts_of_suits {targets : List Nat} (h : Forall₂ Suits results targets)
    (plan : SizingPlan) :
    ((resizeParts (fun _ ↦ none) results targets).run plan).1 = results := by
  induction h generalizing plan with
  | nil => rfl
  | cons hhead htail ih => exact congrArg₂ List.cons (hhead plan) (ih _)

/-- Options within reach stay as they are when each option suits the target. -/
theorem resizeOptions_of_suits {reach : Nat}
    (hreach : ∀ result ∈ results, result.minLength ≤ reach)
    (h : ∀ result ∈ results, result.Suits target) (plan : SizingPlan) :
    ((resizeOptions (fun _ ↦ none) reach results target).run plan).1 = results := by
  induction results generalizing plan with
  | nil => rfl
  | cons result results ih =>
    rw [List.forall_mem_cons] at hreach h
    rw [resizeOptions, if_pos hreach.1]
    exact congrArg₂ List.cons (h.1 plan) (ih hreach.2 h.2 _)

/-- Sizing parts in a row makes settled trees of them. -/
theorem resizeParts_areSettled (h : ∀ part ∈ parts, part.Settles) {targets : List Nat}
    (hlength : targets.length = parts.length)
    (htargets : ∀ target ∈ targets, target < Size.modulus) (plan : SizingPlan) :
    AreSettled parts ((resizeParts (fun _ ↦ none) parts targets).run plan).1 targets := by
  induction parts generalizing targets plan with
  | nil =>
    cases List.length_eq_zero_iff.1 hlength
    exact .nil
  | cons part parts ih =>
    cases targets with
    | nil => cases hlength
    | cons target targets =>
      rw [List.forall_mem_cons] at h htargets
      exact .cons (h.1 htargets.1 plan) (ih h.2 (Nat.succ.inj hlength) htargets.2 _)

/-- Sizing options makes settled trees of those within reach. -/
theorem resizeOptions_isSettled (h : ∀ option ∈ options, option.Settles) (reach : Nat)
    (htarget : target < Size.modulus) (plan : SizingPlan) :
    Forall₂ (IsSettled · · target) (options.filter (·.minLength ≤ reach))
      ((resizeOptions (fun _ ↦ none) reach options target).run plan).1 := by
  induction options generalizing plan with
  | nil => exact .nil
  | cons option options ih =>
    rw [List.forall_mem_cons] at h
    rw [resizeOptions]
    by_cases hreach : option.minLength ≤ reach
    · rw [if_pos hreach, List.filter_cons_of_pos (by simpa using hreach)]
      exact .cons (h.1 htarget plan) (ih h.2 _)
    · rw [if_neg hreach, List.filter_cons_of_neg (by simpa using hreach)]
      exact ih h.2 plan

/-! ## One case for each constructor -/

/-- Some length lies in the extent of a sequence when one lies in the extent of each part. -/
theorem valid_sequence (h : ∀ part ∈ parts, part.extent.Valid) :
    (sequence parts).extent.Valid := by
  rw [extent, extents_eq_map]
  exact Extent.valid_inSequence (List.forall_mem_map.2 h)

/-- Some length lies in the extent of a choice when one lies in the extent of each option. -/
theorem valid_choice (h : ∀ option ∈ options, option.extent.Valid) :
    (choice options).extent.Valid := by
  rw [extent, extents_eq_map]
  exact Extent.valid_anyOf (List.forall_mem_map.2 h)

/-- Some length lies in the extent of a repetition whose bound was raised when one lies in the
extent of the body. -/
theorem valid_repeated (h : body.extent.Valid) (least : Nat) (most : Bound)
    (mode : RepetitionMode) :
    (repeated body least most mode).extent.Valid :=
  (Bound.Allows.mul h (Bound.allows_raise most least)).mono (Nat.min_le_left ..)

/-- A tree of one length that sizing never changes is settled. -/
theorem settles_leaf {length : Nat} (hextent : tree.extent = .ofLength length)
    (hsuits : ∀ target, tree.Suits target) : tree.Settles := by
  intro target htarget plan
  rw [hsuits target plan]
  refine ⟨rfl, ?_, fun hfloor hsmall ↦ ?_, hsuits target, fun larger _ ↦ hsuits larger⟩
  · rw [hextent]
    exact (Bound.allows_ofExact_self length).mono (Nat.min_le_left ..)
  · rw [minLength, hextent] at hfloor
    have hfloor : min length Size.largest ≤ target := hfloor
    rw [maxLength, hextent, Bound.isWithin_iff htarget]
    exact Bound.ofExact_mono (by omega)

/-- A sequence suits a target when its parts suit their budgets. -/
theorem suits_sequence (h : Forall₂ Suits results (Extent.splitTarget (extents results) target)) :
    (sequence results).Suits target :=
  fun plan ↦ congrArg sequence (resizeParts_of_suits h plan)

/-- A sequence is settled when its parts are settled for their budgets. -/
theorem AreSettled.sequence (htarget : target < Size.modulus)
    (h : AreSettled parts results (Extent.splitTarget (extents parts) target)) :
    IsSettled (sequence parts) (sequence results) target := by
  have hvalid : ∀ extent ∈ extents results, extent.Valid := by
    rw [extents_eq_map, List.forall_mem_map]
    exact h.valid
  have hkeeps : Forall₂ Extent.KeepsTo (extents results)
      (Extent.splitTarget (extents parts) target) := by
    rw [extents_eq_map results, List.forall₂_map_left_iff]
    exact h.keepsTo (minLength_le_splitTarget parts target)
  have hmins : (extents results).map (·.min) = (extents parts).map (·.min) := by
    rw [extents_eq_map, extents_eq_map, List.map_map, List.map_map]
    exact map_minLength_congr h.minLength
  refine ⟨minLength_sequence_congr h.minLength, valid_sequence h.valid, ?_, ?_, ?_⟩
  · intro hfloor hsmall
    have hfloor : Extent.floorOf (extents parts) ≤ target := hfloor
    have hsum := Extent.sum_splitTarget_le hfloor (Nat.lt_of_le_of_lt hfloor hsmall)
    refine (Extent.isWithin_sum hkeeps (fun budget hbudget ↦ ?_)
      (Nat.lt_of_le_of_lt hsum htarget)).mono hsum
    exact Nat.lt_of_le_of_lt (Nat.le_trans (List.le_sum_of_mem hbudget) hsum) hsmall
  · rcases Extent.splitTarget_again htarget hvalid hmins hkeeps with heq | hmax
    · refine suits_sequence ?_
      rw [heq]
      exact h.again
    · refine suits_sequence (h.suits ?_)
      rwa [extents_eq_map, List.forall₂_map_left_iff, ← extents_eq_map] at hmax
  · exact fun larger hmax ↦ suits_sequence (h.suits (isWithin_splitTarget h.valid hmax))

/-- A choice suits a target when its options are within reach and suit the target. -/
theorem suits_choice
    (hreach : ∀ result ∈ results, result.minLength ≤ max target (choice results).minLength)
    (h : ∀ result ∈ results, result.Suits target) : (choice results).Suits target :=
  fun plan ↦ congrArg choice (resizeOptions_of_suits hreach h plan)

/-- A choice is settled when the options within reach of the target are. -/
theorem isSettled_choice (htarget : target < Size.modulus)
    (h : Forall₂ (IsSettled · · target)
      (options.filter (·.minLength ≤ max target (choice options).minLength)) results) :
    IsSettled (choice options) (choice results) target := by
  have hmin : (choice results).minLength = (choice options).minLength := by
    refine minLength_choice_congr (h.imp fun _ _ hsettled ↦ hsettled.minLength)
      (fun option hoption ↦ (List.mem_filter.1 hoption).1) fun option hoption hle ↦ ?_
    have hreach := Nat.le_trans hle (Nat.le_max_right target _)
    exact List.mem_filter.2 ⟨hoption, by simpa using hreach⟩
  -- Every option that is left was made from one within reach.
  have hresult : ∀ result ∈ results, ∃ option,
      option.minLength ≤ max target (choice options).minLength ∧
      IsSettled option result target := by
    intro result hresult
    obtain ⟨option, hoption, hsettled⟩ := exists_of_forall₂ h hresult
    exact ⟨option, by simpa using (List.mem_filter.1 hoption).2, hsettled⟩
  have hvalid : ∀ result ∈ results, result.extent.Valid := fun result hmem ↦
    (hresult result hmem).elim fun _ hsettled ↦ hsettled.2.valid
  refine ⟨hmin, valid_choice hvalid, fun hfloor hsmall ↦ ?_, suits_choice ?_ ?_,
    fun larger hmax ↦ suits_choice ?_ ?_⟩
  · rw [maxLength, extent, extents_eq_map, Bound.isWithin_iff htarget, ← Extent.within_upTo]
    refine Extent.anyOf_within_upTo (List.forall_mem_map.2 fun result hmem ↦ ?_)
    obtain ⟨option, hreach, hsettled⟩ := hresult result hmem
    rw [Nat.max_eq_left hfloor] at hreach
    exact Extent.within_upTo.2 ((Bound.isWithin_iff htarget).1 (hsettled.isWithin hreach hsmall))
  · intro result hmem
    obtain ⟨option, hreach, hsettled⟩ := hresult result hmem
    rw [hmin, hsettled.minLength]
    exact hreach
  · exact fun result hmem ↦ (hresult result hmem).elim fun _ hsettled ↦ hsettled.2.again
  · exact minLength_le_reach hvalid hmax
  · exact fun result hmem ↦ (hresult result hmem).elim fun _ hsettled ↦
      hsettled.2.suits (isWithin_of_choice hmax hmem)

/-- A repetition suits a target for which its count is chosen again when its body suits the length
of a copy. -/
theorem suits_repetition {least each : Nat} {most count : Bound} {mode : RepetitionMode}
    (hfit : Extent.fitRepetition result.extent least most target = (count, each))
    (hcount : count.raise least = most) (h : result.Suits each) :
    (repetition result least most mode).Suits target := by
  intro plan
  rw [resize_repetition hfit, repeated, hcount, h plan]

/-- A repetition is settled when its body is settled for the length of a copy. -/
theorem isSettled_repetition {least each : Nat} {most count : Bound} {mode : RepetitionMode}
    (hrepeat : (repetition body least most mode).CanRepeat) (htarget : target < Size.modulus)
    (hfit : Extent.fitRepetition body.extent least most target = (count, each))
    (h : IsSettled body result each) (hsame : body.maxLength.IsWithin each → result = body) :
    IsSettled (repetition body least most mode) (repeated result least count mode) target := by
  obtain ⟨hmost, hleast, hvalid⟩ := hrepeat
  have heach := Extent.min_le_fitRepetition least most target hvalid
  have hnone := @Extent.fitRepetition_eq_zero body.extent least target most hmost
  have hcopies := @Extent.mul_fitRepetition_le body.extent least target most hmost hleast
  rw [hfit] at heach hnone hcopies
  have hkeeps : each < Size.largest ∨ body.maxLength.IsWithin each →
      result.maxLength.IsWithin each := by
    rintro (hsmall | hmax)
    · exact h.isWithin heach hsmall
    · rwa [hsame hmax]
  refine ⟨?_, valid_repeated h.valid least count mode, fun hfloor hsmall ↦ ?_, ?_,
    fun larger hmax ↦ ?_⟩
  · show min (result.extent.min * least) Size.largest = min (body.extent.min * least) Size.largest
    exact congrArg (fun each ↦ min (each * least) Size.largest) h.minLength
  · have hcopies := hcopies hfloor hsmall
    have hlargest : Size.largest = Size.modulus - 1 := rfl
    show (result.maxLength * count.raise least).IsWithin target
    rw [Bound.isWithin_iff htarget]
    rcases Bound.eq_zero_or_allows_one (count.raise least) with hzero | hone
    · rw [hzero, Bound.mul_zero]
      exact Bound.zero_le _
    · -- Where a copy is allowed, it is no longer than the target.
      have hlength := ((Bound.allows_ofExact_self each).mul hone).of_le hcopies
      rw [Nat.mul_one, Bound.allows_ofExact] at hlength
      have hmax := hkeeps (.inl (by omega))
      rw [Bound.isWithin_iff (by omega)] at hmax
      exact le_trans (Bound.mul_le_mul_left hmax _) hcopies
  · obtain ⟨again, length, hagain, hcount, hlength⟩ :=
      Extent.fitRepetition_again hmost hleast htarget h.minLength hfit hkeeps
    refine suits_repetition hagain hcount ?_
    rcases hlength with rfl | hmax
    · exact h.again
    · exact h.suits hmax
  · have hmax : (result.maxLength * count.raise least).IsWithin larger := hmax
    refine suits_repetition (Extent.fitRepetition_of_isWithin least hmax)
      (Bound.raise_of_allows (Bound.allows_raise ..)) ?_
    rcases Bound.eq_zero_or_allows_one (count.raise least) with hzero | hone
    · cases hbound : result.extent.max with
      | finite limit isSize =>
        refine h.suits ?_
        rw [maxLength, hbound]
        exact Nat.le_refl limit
      | unbounded =>
        rcases hnone hzero with hshort | hwithin
        · have hmin : result.extent.min = each := h.minLength.trans hshort.symm
          show result.Suits result.extent.min
          rw [hmin]
          exact h.again
        · have hwithin := hkeeps (.inr hwithin)
          rw [maxLength, hbound] at hwithin
          cases hwithin
    · exact h.suits (Extent.isWithin_copy hone hmax)

/-- A group suits a target when its body does. -/
theorem suits_group {kind : GroupKind} (h : kind.isLookaround = false → result.Suits target) :
    (group kind result).Suits target := by
  intro plan
  cases kind with
  | capturing number name =>
    rw [resize_capturing, groupCap_none]
    exact congrArg (group _) (h rfl plan)
  | plain => exact congrArg (group .plain) (h rfl plan)
  | atomic => exact congrArg (group .atomic) (h rfl plan)
  | lookahead negated => rfl
  | lookbehind negated => rfl

/-- A group is settled when its body is, unless it is an assertion. -/
theorem isSettled_group {kind : GroupKind} (hkind : kind.isLookaround = false)
    (h : IsSettled body result target) :
    IsSettled (group kind body) (group kind result) target := by
  have hextent (tree : Regex) : (group kind tree).extent = tree.extent := by simp [extent, hkind]
  constructor
  · rw [minLength, minLength, hextent, hextent]
    exact h.minLength
  · rw [hextent]
    exact h.valid
  · rw [minLength, maxLength, hextent, hextent]
    exact h.isWithin
  · exact suits_group fun _ ↦ h.again
  · rw [maxLength, hextent]
    exact fun larger hmax ↦ suits_group fun _ ↦ h.suits hmax

/-! ## Trees without backreferences -/

section Plain

variable (hrepeat : ∀ node ∈ tree.visible, node.CanRepeat)
  (hvalid : ∀ node ∈ tree.visible, node.extent.Valid)
  (hplain : ∀ node ∈ tree.visible, node.isBackref = false)

include hrepeat hvalid hplain

/-- A tree without backreferences suits the targets that its bound does not exceed. -/
theorem suits_of_isWithin (hmax : tree.maxLength.IsWithin target) : tree.Suits target := by
  intro plan
  have hloose : ∀ node ∈ tree.visible, node.IsLoose fun _ ↦ none := by
    intro node _
    unfold IsLoose
    split
    · exact fun id hid cap hcap ↦ (Option.some_ne_none cap hcap.symm).elim
    · trivial
  have hexpected : ∀ node ∈ tree.visible, node.MeetsExpected fun _ _ ↦ False := by
    intro node hnode
    have := hplain node hnode
    unfold MeetsExpected
    split
    · exact fun id hid extent h ↦ h.elim
    · cases this
    · trivial
  exact (staysAsItIs hrepeat hvalid hloose hexpected hmax fun id noted extent _ h ↦ h.elim).1

/-- Sizing a tree without backreferences makes a settled tree. -/
theorem settles : tree.Settles := by
  have hnothing : Extent.zero = .ofLength 0 := Extent.ofLength_zero.symm
  induction tree with
  | empty => exact settles_leaf hnothing fun target plan ↦ rfl
  | literal text ignoreCase => exact settles_leaf rfl fun target plan ↦ rfl
  | set members => exact settles_leaf rfl fun target plan ↦ rfl
  | sequence parts ih =>
    rw [forall_visible_sequence] at hrepeat hvalid hplain
    intro target htarget plan
    refine (resizeParts_areSettled (fun part hpart ↦ ih part hpart (hrepeat.2 part hpart)
      (hvalid.2 part hpart) (hplain.2 part hpart)) (length_splitTarget_extents ..) ?_ plan).sequence
        htarget
    exact fun budget ↦ Extent.lt_modulus_of_mem_splitTarget htarget
  | choice options ih =>
    rw [forall_visible_choice] at hrepeat hvalid hplain
    intro target htarget plan
    exact isSettled_choice htarget
      (resizeOptions_isSettled (fun option hoption ↦ ih option hoption
      (hrepeat.2 option hoption) (hvalid.2 option hoption) (hplain.2 option hoption)) _
        htarget plan)
  | repetition body least most mode ih =>
    rw [forall_visible_repetition] at hrepeat hvalid hplain
    intro target htarget plan
    rcases hfit : Extent.fitRepetition body.extent least most target with ⟨count, each⟩
    rw [resize_repetition hfit]
    have heach := Extent.fitRepetition_lt_modulus body.extent least most htarget
    rw [hfit] at heach
    exact isSettled_repetition hrepeat.1 htarget hfit (ih hrepeat.2 hvalid.2 hplain.2 heach plan)
      fun hmax ↦ suits_of_isWithin hrepeat.2 hvalid.2 hplain.2 hmax plan
  | group kind body ih =>
    rw [forall_visible_group] at hrepeat hvalid hplain
    cases kind with
    | capturing number name =>
      intro target htarget plan
      rw [resize_capturing, groupCap_none]
      exact isSettled_group rfl (ih (hrepeat.2 rfl) (hvalid.2 rfl) (hplain.2 rfl) htarget plan)
    | plain =>
      exact fun target htarget plan ↦ isSettled_group rfl
        (ih (hrepeat.2 rfl) (hvalid.2 rfl) (hplain.2 rfl) htarget plan)
    | atomic =>
      exact fun target htarget plan ↦ isSettled_group rfl
        (ih (hrepeat.2 rfl) (hvalid.2 rfl) (hplain.2 rfl) htarget plan)
    | lookahead negated => exact settles_leaf hnothing fun target plan ↦ rfl
    | lookbehind negated => exact settles_leaf hnothing fun target plan ↦ rfl
  | backref id extent => cases hplain _ (mem_visible_self _)

end Plain

/-- Sizing a tree without backreferences makes one without backreferences, and notes no budgets. -/
theorem sizesTo_plain {caps : GroupId → Option Nat}
    (h : ∀ node ∈ tree.visible, node.isBackref = false) :
    SizesTo caps (fun _ result ↦ ∀ node ∈ result.visible, node.isBackref = false)
      (·.budgets = []) tree := by
  induction tree with
  | empty => exact fun target plan hplan ↦ ⟨h, hplan⟩
  | literal text ignoreCase => exact fun target plan hplan ↦ ⟨h, hplan⟩
  | set members => exact fun target plan hplan ↦ ⟨h, hplan⟩
  | sequence parts ih =>
    rw [forall_visible_sequence] at h
    intro target plan hplan
    obtain ⟨hresults, hafter⟩ :=
      resizeParts_related (fun part hpart ↦ ih part hpart (h.2 part hpart))
      (length_splitTarget_extents parts target) hplan
    refine ⟨forall_visible_sequence.2 ⟨rfl, fun result hresult ↦ ?_⟩, hafter⟩
    obtain ⟨part, -, hplain⟩ := exists_of_forall₂ hresults hresult
    exact hplain
  | choice options ih =>
    rw [forall_visible_choice] at h
    intro target plan hplan
    obtain ⟨hresults, hafter⟩ := resizeOptions_related
      (fun option hoption ↦ ih option hoption (h.2 option hoption))
      (max target (choice options).minLength) target hplan
    refine ⟨forall_visible_choice.2 ⟨rfl, fun result hresult ↦ ?_⟩, hafter⟩
    obtain ⟨option, -, hplain⟩ := exists_of_forall₂ hresults hresult
    exact hplain
  | repetition body least most mode ih =>
    rw [forall_visible_repetition] at h
    intro target plan hplan
    obtain ⟨hresult, hafter⟩ := ih h.2 hplan
    exact ⟨forall_visible_repetition.2 ⟨rfl, hresult⟩, hafter⟩
  | group kind body ih =>
    rw [forall_visible_group] at h
    cases kind with
    | capturing number name =>
      intro target plan hplan
      obtain ⟨hresult, hafter⟩ := ih (h.2 rfl) hplan
      rw [resize_capturing]
      exact ⟨forall_visible_group.2 ⟨rfl, fun _ ↦ hresult⟩,
        (SizingPlan.budgets_noteGroups ..).trans hafter⟩
    | plain =>
      intro target plan hplan
      obtain ⟨hresult, hafter⟩ := ih (h.2 rfl) hplan
      exact ⟨forall_visible_group.2 ⟨rfl, fun _ ↦ hresult⟩, hafter⟩
    | atomic =>
      intro target plan hplan
      obtain ⟨hresult, hafter⟩ := ih (h.2 rfl) hplan
      exact ⟨forall_visible_group.2 ⟨rfl, fun _ ↦ hresult⟩, hafter⟩
    | lookahead negated =>
      exact fun target plan hplan ↦
        ⟨forall_visible_group.2 ⟨rfl, fun hkind ↦ nomatch hkind⟩, hplan⟩
    | lookbehind negated =>
      exact fun target plan hplan ↦
        ⟨forall_visible_group.2 ⟨rfl, fun hkind ↦ nomatch hkind⟩, hplan⟩
  | backref id extent => cases h _ (mem_visible_self _)

/-- The first round finds no caps for a tree without backreferences. -/
theorem sized_eq_of_plain (h : ∀ node ∈ tree.visible, node.isBackref = false) (target : Nat) :
    tree.sized target = ((tree.resize (fun _ ↦ none) target).run {}).1 := by
  have hcaps : ((tree.resize (fun _ ↦ none) target).run {}).2.budget? = fun _ ↦ none := by
    have hbudgets := (@sizesTo_plain tree (fun _ ↦ none) h target {} rfl).2
    funext id
    rw [SizingPlan.budget?, hbudgets]
    rfl
  rw [sized, hcaps]

/-- Sizing a tree without backreferences for a target a second time changes nothing. -/
theorem sized_again (hrepeat : ∀ node ∈ tree.visible, node.CanRepeat)
    (hvalid : ∀ node ∈ tree.visible, node.extent.Valid)
    (hplain : ∀ node ∈ tree.visible, node.isBackref = false) (htarget : target < Size.modulus) :
    (tree.sized target).sized target = tree.sized target := by
  rw [sized_eq_of_plain hplain]
  rw [sized_eq_of_plain (sizesTo_plain hplain rfl).1]
  exact (settles hrepeat hvalid hplain htarget {}).again {}

end Exemplar.Regex
