import Exemplar.Proofs.Emission.Learning
import Exemplar.Proofs.Generation.Reach
import Exemplar.Proofs.Generation.Rewriting
import Exemplar.Proofs.Length.Keeping

/-!
# Sized trees keep to their targets

The second round of sizing holds every group to the smallest share of its backreferences. It keeps
to every target that the tree can reach, and every group keeps to its cap, as long as the
backreferences get in the second round what they got in the first one (`sizesWithin`). They do if
no group with a cap has backreferences inside, so a sized tree keeps to its target if its
backreferences have the extents of their groups and lead to groups without backreferences
(`keepsTo_sized`).

A group with backreferences inside breaks the rule: its cap lowers the targets of these
backreferences, and the groups to which they lead are not held to the lower targets.
-/

namespace Exemplar.Regex

open List (Forall₂)

/-! ## The second round -/

/-- A number does not exceed the cap on a group when it exceeds neither the target nor a cap on one
of the references to the group. -/
theorem le_groupCap_iff {caps : GroupId → Option Nat} {number least target : Nat}
    {name : Option String} :
    least ≤ groupCap caps number name target ↔
      least ≤ target ∧ ∀ id ∈ groupIds number name, ∀ cap, caps id = some cap →
      least ≤ cap := by
  have hfold (limits : List Nat) (target : Nat) :
      least ≤ limits.foldl min target ↔
        least ≤ target ∧ ∀ limit ∈ limits, least ≤ limit := by
    induction limits generalizing target with
    | nil => simp
    | cons limit limits ih => simp [ih, and_assoc]
  rw [groupCap, hfold]
  simp only [List.mem_filterMap]
  refine and_congr_right fun _ ↦ ⟨fun h id hid cap hcap ↦ h cap ⟨id, hid, hcap⟩, ?_⟩
  rintro h cap ⟨id, hid, hcap⟩
  exact h id hid cap hcap

/-- Whether the tree is a backreference. -/
def isBackref : Regex → Bool
  | backref .. => true
  | _ => false

/-- What a group owes to the caps: each of them admits some text of the group, and a group with a
cap has no backreferences inside. -/
def AdmitsCaps (caps : GroupId → Option Nat) : Regex → Prop
  | group (.capturing number name) body =>
      ∀ id ∈ groupIds number name, ∀ cap, caps id = some cap →
        body.minLength ≤ cap ∧ ∀ node ∈ body.visible, node.isBackref = false
  | _ => True

/-- Sizing the tree for any target that it can reach keeps to the target and to the caps. -/
def SizesWithin (caps : GroupId → Option Nat) (tree : Regex) : Prop :=
  ∀ ⦃target : Nat⦄ ⦃plan : SizingPlan⦄ ⦃before :
    Captures⦄, tree.minLength ≤ target →
    (∀ id share, (id, share) ∈ tree.shares target → ∃ cap ≤ share, caps id = some cap) →
    plan.KeepsCaps caps → plan.Knows before → tree.Safe before →
      (target < Size.largest → KeepsTo caps ((tree.resize caps target).run plan).1 target) ∧
        ((tree.resize caps target).run plan).2.KeepsCaps caps

section SecondRound

variable {caps : GroupId → Option Nat} {parts options : List Regex} {body : Regex} {target : Nat}
  {plan : SizingPlan} {before : Captures}

/-- Sizing parts in a row keeps to their budgets. -/
theorem resizeParts_keepsTo (hwell : ∀ part ∈ parts, part.WellFormed)
    (h : ∀ part ∈ parts, part.SizesWithin caps) {targets : List Nat}
    (hfloor : Forall₂ (fun part target ↦ part.minLength ≤ target) parts targets)
    (hshares : ∀ id share, (id, share) ∈ sharesOfParts parts targets →
      ∃ cap ≤ share, caps id = some cap)
    (hcaps : plan.KeepsCaps caps) (hknows : plan.Knows before) (hsafe : SafeAll parts before) :
    ((∀ target ∈ targets, target < Size.largest) →
        Forall₂ (KeepsTo caps) ((resizeParts caps parts targets).run plan).1 targets) ∧
      ((resizeParts caps parts targets).run plan).2.KeepsCaps caps := by
  induction hfloor generalizing plan before with
  | nil => exact ⟨fun _ ↦ .nil, hcaps⟩
  | @cons part target parts targets hhead htail ih =>
    obtain ⟨hpart, hparts⟩ := List.forall_mem_cons.1 h
    obtain ⟨hone, hall⟩ := List.forall_mem_cons.1 hwell
    obtain ⟨hkeeps, hcaps⟩ := hpart hhead
      (fun id share hmem ↦ hshares id share (List.mem_append_left _ hmem)) hcaps hknows hsafe.1
    -- The rest is sized behind a text of the part as it was sized.
    have hsizing : IsSizing caps part ((part.resize caps target).run plan).1 :=
      ⟨target, plan, rfl⟩
    obtain ⟨text, middle, hemits⟩ := exists_emits (hsizing.wellFormed hone)
      (hsizing.safe hone hsafe.1)
    have hmiddle := hsafe.2 (hsizing.emits_le hone _ _ _ hemits)
    obtain ⟨hkeeps', hcaps'⟩ := ih hall hparts
      (fun id share hmem ↦ hshares id share (List.mem_append_right _ hmem)) hcaps
      ((learns_resize part caps target plan).knows_later hknows hemits) hmiddle
    refine ⟨fun htargets ↦ ?_, hcaps'⟩
    obtain ⟨htarget, htargets⟩ := List.forall_mem_cons.1 htargets
    exact .cons (hkeeps htarget) (hkeeps' htargets)

/-- Sizing options within reach of the target keeps to the target. -/
theorem resizeOptions_keepsTo (h : ∀ option ∈ options, option.SizesWithin caps)
    (hshares : ∀ id share, (id, share) ∈ sharesOfOptions target options target →
      ∃ cap ≤ share, caps id = some cap) (hcaps : plan.KeepsCaps caps)
    (hknows : plan.Knows before) (hsafe : ∀ option ∈ options, option.Safe before) :
    (target < Size.largest →
      ∀ option ∈ ((resizeOptions caps target options target).run plan).1,
          KeepsTo caps option target) ∧
      ((resizeOptions caps target options target).run plan).2.KeepsCaps caps := by
  induction options generalizing plan with
  | nil => exact ⟨fun _ option hoption ↦ (List.not_mem_nil hoption).elim, hcaps⟩
  | cons option options ih =>
    obtain ⟨hoption, hoptions⟩ := List.forall_mem_cons.1 h
    obtain ⟨hone, hall⟩ := List.forall_mem_cons.1 hsafe
    rw [sharesOfOptions] at hshares
    rw [resizeOptions]
    split
    · rename_i hreach
      rw [if_pos hreach] at hshares
      obtain ⟨hkeeps, hcaps⟩ := hoption hreach
        (fun id share hmem ↦ hshares id share (List.mem_append_left _ hmem)) hcaps hknows hone
      obtain ⟨hkeeps', hcaps'⟩ := ih hoptions
        (fun id share hmem ↦ hshares id share (List.mem_append_right _ hmem)) hcaps
        ((learns_resize option caps target plan).knows hknows) hall
      exact ⟨fun htarget ↦ List.forall_mem_cons.2
        ⟨hkeeps htarget, hkeeps' htarget⟩, hcaps'⟩
    · rename_i hreach
      rw [if_neg hreach] at hshares
      exact ih hoptions hshares hcaps hknows hall

/-- The body of a repetition is sized for the length of a copy. -/
theorem resize_repetition {least each : Nat} {most bound : Bound}
    (h : Extent.fitRepetition body.extent least most target = (bound, each))
    (mode : RepetitionMode) :
    ((repetition body least most mode).resize caps target).run plan =
      (repeated ((body.resize caps each).run plan).1 least bound mode,
        ((body.resize caps each).run plan).2) := by
  rw [resize, h]
  rfl

/-- A cap on a group changes no share, because a group with a cap has no backreferences inside. -/
theorem mem_shares_of_groupCap {number : Nat} {name : Option String}
    (hcap : (group (.capturing number name) body).AdmitsCaps caps)
    (hrepeat : ∀ node ∈ body.visible, node.CanRepeat)
    (hfloor : body.minLength ≤ groupCap caps number name target) {id : GroupId} {share : Nat}
    (h : (id, share) ∈ body.shares (groupCap caps number name target)) :
    (id, share) ∈ body.shares target := by
  by_cases hcapped : ∃ other ∈ groupIds number name, ∃ cap, caps other = some cap
  · obtain ⟨other, hother, cap, heq⟩ := hcapped
    obtain ⟨extent, hvisible, -⟩ := min_le_of_mem_shares hrepeat hfloor h
    have hnone := (hcap other hother cap heq).2 _ hvisible
    cases hnone
  · have heq : groupCap caps number name target = target := by
      refine Nat.le_antisymm (le_groupCap_iff.1 (Nat.le_refl _)).1
        (le_groupCap_iff.2 ⟨le_rfl, ?_⟩)
      exact fun other hother cap heq ↦ absurd ⟨other, hother, cap, heq⟩ hcapped
    rwa [heq] at h

namespace SizesWithin

/-- The parts of a sequence are sized for budgets whose sum is the target. -/
theorem sequence (hwell : ∀ part ∈ parts, part.WellFormed)
    (h : ∀ part ∈ parts, part.SizesWithin caps) : (sequence parts).SizesWithin caps := by
  intro target plan before hfloor hshares hcaps hknows hsafe
  obtain ⟨hkeeps, hcaps⟩ := resizeParts_keepsTo hwell h (minLength_le_splitTarget parts target)
    hshares hcaps hknows hsafe
  refine ⟨fun htarget ↦ ?_, hcaps⟩
  have hfloor : Extent.floorOf (extents parts) ≤ target := hfloor
  have hsum := Extent.sum_splitTarget_le hfloor (Nat.lt_of_le_of_lt hfloor htarget)
  refine (KeepsTo.sequence (hkeeps fun budget hbudget ↦ ?_)).mono hsum
  exact Nat.lt_of_le_of_lt (Nat.le_trans (List.le_sum_of_mem hbudget) hsum) htarget

/-- The options of a choice are sized for the target of the choice. -/
theorem choice (h : ∀ option ∈ options, option.SizesWithin caps) :
    (choice options).SizesWithin caps := by
  intro target plan before hfloor hshares hcaps hknows hsafe
  rw [shares, Nat.max_eq_left hfloor] at hshares
  obtain ⟨hkeeps, hcaps⟩ := resizeOptions_keepsTo h hshares hcaps hknows (safeEach_iff.1 hsafe)
  show (target < Size.largest → KeepsTo caps (Regex.choice
      ((resizeOptions caps (max target (Regex.choice options).minLength) options target).run
        plan).1) target) ∧
    ((resizeOptions caps (max target (Regex.choice options).minLength) options target).run
      plan).2.KeepsCaps caps
  rw [Nat.max_eq_left hfloor]
  exact ⟨fun htarget ↦ .choice (hkeeps htarget), hcaps⟩

/-- The body of a repetition is sized for a length that fits the target as often as there are
copies. -/
theorem repetition {least : Nat} {most : Bound} {mode : RepetitionMode}
    (hrepeat : (repetition body least most mode).CanRepeat) (h : body.SizesWithin caps) :
    (repetition body least most mode).SizesWithin caps := by
  intro target plan before hfloor hshares hcaps hknows hsafe
  obtain ⟨hmost, hleast, hvalid⟩ := hrepeat
  -- One copy is allowed, so the body is safe where the repetition is.
  have hbody : body.Safe before :=
    (Emission.always_ofText []).1 (hsafe 0 (hmost.mono (Nat.le_max_right ..)))
  have heach := Extent.min_le_fitRepetition least most target hvalid
  have hcopies := Extent.mul_fitRepetition_le hmost hleast hfloor
  rw [shares] at hshares
  rcases hfit : Extent.fitRepetition body.extent least most target with ⟨bound, each⟩
  rw [hfit] at hshares heach hcopies
  obtain ⟨hkeeps, hcaps⟩ := h heach hshares hcaps hknows hbody
  rw [resize_repetition hfit]
  refine ⟨fun htarget ↦ ?_, hcaps⟩
  rcases Bound.eq_zero_or_allows_one (bound.raise least) with hnone | hone
  · rw [repeated, hnone]
    exact .noCopies
  · -- Where a copy is allowed, it is no longer than the target.
    have hlargest : Size.largest = Size.modulus - 1 := rfl
    have heach := ((Bound.allows_ofExact_self each).mul hone).of_le (hcopies htarget)
    rw [Nat.mul_one, Bound.allows_ofExact] at heach
    exact (hkeeps (by omega)).repetition (hcopies htarget)

/-- A capturing group is sized for the smallest of the target and the caps on it. -/
theorem capturing {number : Nat} {name : Option String}
    (hcap : (group (.capturing number name) body).AdmitsCaps caps)
    (hrepeat : ∀ node ∈ body.visible, node.CanRepeat) (h : body.SizesWithin caps) :
    (group (.capturing number name) body).SizesWithin caps := by
  intro target plan before hfloor hshares hcaps hknows hsafe
  have hfloor : body.minLength ≤ groupCap caps number name target :=
    le_groupCap_iff.2 ⟨hfloor, fun id hid cap heq ↦ (hcap id hid cap heq).1⟩
  obtain ⟨htarget, hcap_le⟩ :=
    le_groupCap_iff.1 (Nat.le_refl (groupCap caps number name target))
  obtain ⟨hkeeps, hcaps⟩ := h hfloor
    (fun id share hmem ↦ hshares id share (mem_shares_of_groupCap hcap hrepeat hfloor hmem))
    hcaps hknows hsafe
  rw [resize_capturing]
  refine ⟨fun hlt ↦ ?_, fun id extent cap hnoted heq hlt ↦ ?_⟩
  · exact ((hkeeps (Nat.lt_of_le_of_lt htarget hlt)).capturing hcap_le).mono htarget
  · -- The plan notes the extent of the sized body for this group, and the others are as before.
    rw [SizingPlan.group?_noteGroups] at hnoted
    split at hnoted
    · rename_i hid
      cases hnoted
      have hle := hcap_le id hid cap heq
      exact (hkeeps (Nat.lt_of_le_of_lt hle hlt)).extent.trans (Extent.upTo_mono hle)
    · exact hcaps hnoted heq hlt

end SizesWithin

/-- Sizing keeps to the target and to the caps wherever the repetitions may be repeated and the
groups admit the caps. -/
theorem sizesWithin {tree : Regex} (hwell : tree.WellFormed)
    (hrepeat : ∀ node ∈ tree.visible, node.CanRepeat)
    (hadmits : ∀ node ∈ tree.visible, node.AdmitsCaps caps) : tree.SizesWithin caps := by
  induction tree with
  | empty =>
    intro target plan before hfloor hshares hcaps hknows hsafe
    exact ⟨fun htarget ↦ .of_measured (emits_measured trivial)
      (Extent.zero_within_upTo target), hcaps⟩
  | literal text ignoreCase =>
    intro target plan before hfloor hshares hcaps hknows hsafe
    refine ⟨fun htarget ↦ ?_, hcaps⟩
    have hfloor : min text.length Size.largest ≤ target := hfloor
    exact .of_measured (emits_measured trivial) (Extent.ofLength_within_upTo (by omega))
  | set members =>
    intro target plan before hfloor hshares hcaps hknows hsafe
    refine ⟨fun htarget ↦ ?_, hcaps⟩
    have hfloor : min 1 Size.largest ≤ target := hfloor
    exact .of_measured (emits_measured trivial) (Extent.ofLength_within_upTo (by omega))
  | sequence parts ih =>
    rw [wellFormed_sequence] at hwell
    rw [forall_visible_sequence] at hrepeat hadmits
    exact .sequence hwell fun part hpart ↦
      ih part hpart (hwell part hpart) (hrepeat.2 part hpart) (hadmits.2 part hpart)
  | choice options ih =>
    rw [wellFormed_choice] at hwell
    rw [forall_visible_choice] at hrepeat hadmits
    exact .choice fun option hoption ↦
      ih option hoption (hwell.2 option hoption) (hrepeat.2 option hoption)
        (hadmits.2 option hoption)
  | repetition body least most mode ih =>
    rw [wellFormed_repetition] at hwell
    rw [forall_visible_repetition] at hrepeat hadmits
    exact .repetition hrepeat.1 (ih hwell.2 hrepeat.2 hadmits.2)
  | group kind body ih =>
    rw [wellFormed_group] at hwell
    rw [forall_visible_group] at hrepeat hadmits
    have hassertion (hkind : kind.isLookaround = true)
        (hgroup : (group kind body).Emits = .ofText [])
        (target : Nat) : KeepsTo caps (group kind body) target := by
      refine .of_measured ?_ ?_ <;> rw [extent, if_pos hkind]
      · exact hgroup ▸ Emission.measured_nothing
      · exact Extent.zero_within_upTo target
    have hbody (hkind : kind.isLookaround = false) : body.SizesWithin caps :=
      ih hwell (hrepeat.2 hkind) (hadmits.2 hkind)
    cases kind with
    | capturing number name => exact .capturing hadmits.1 (hrepeat.2 rfl) (hbody rfl)
    | plain =>
      intro target plan before hfloor hshares hcaps hknows hsafe
      obtain ⟨hkeeps, hcaps⟩ := hbody rfl hfloor hshares hcaps hknows hsafe
      exact ⟨fun hlt ↦ ⟨(hkeeps hlt).extent, (hkeeps hlt).emits⟩, hcaps⟩
    | atomic =>
      intro target plan before hfloor hshares hcaps hknows hsafe
      obtain ⟨hkeeps, hcaps⟩ := hbody rfl hfloor hshares hcaps hknows hsafe
      exact ⟨fun hlt ↦ ⟨(hkeeps hlt).extent, (hkeeps hlt).emits⟩, hcaps⟩
    | lookahead negated =>
      exact fun target plan before _ _ hcaps _ _ ↦
        ⟨fun _ ↦ hassertion rfl rfl target, hcaps⟩
    | lookbehind negated =>
      exact fun target plan before _ _ hcaps _ _ ↦
        ⟨fun _ ↦ hassertion rfl rfl target, hcaps⟩
  | backref id extent =>
    intro target plan before hfloor hshares hcaps hknows hsafe
    -- A share of this size is noted for the group, so its cap is no larger than the target.
    obtain ⟨cap, hle, hcap⟩ := hshares id target (by simp [shares])
    obtain ⟨noted, hnoted⟩ := Option.isSome_iff_exists.1 (hknows id hsafe)
    refine ⟨fun hlt ↦ ?_, hcaps⟩
    show KeepsTo caps (.backref id ((plan.group? id).getD extent)) target
    rw [hnoted]
    exact .backref hcap hle (hcaps hnoted hcap (Nat.lt_of_le_of_lt hle hlt))

end SecondRound

/-! ## Both rounds -/

/-- Whether the first tree is a backreference and the second one the group to which it leads. -/
def refersTo : Regex → Regex → Bool
  | backref id _, group (.capturing number name) _ => (groupIds number name).contains id
  | _, _ => false

/-- Every backreference has the extent of its group, as far as assertions are left out. -/
def HasMatchingReferences (tree : Regex) : Prop :=
  ∀ reference ∈ tree.visible, ∀ other ∈ tree.visible, reference.refersTo other = true →
    reference.extent = other.extent

/-- No group to which a backreference leads has a backreference inside, as far as assertions are
left out. -/
def HasFlatReferences (tree : Regex) : Prop :=
  ∀ reference ∈ tree.visible, ∀ other ∈ tree.visible, reference.refersTo other = true →
    ∀ node ∈ other.visible, node.isBackref = false

instance (tree : Regex) : Decidable tree.HasMatchingReferences :=
  inferInstanceAs (Decidable (∀ reference ∈ tree.visible, ∀ other ∈ tree.visible, _))

instance (tree : Regex) : Decidable tree.HasFlatReferences :=
  inferInstanceAs (Decidable (∀ reference ∈ tree.visible, ∀ other ∈ tree.visible, _))

/-- Sizing keeps to every target that the tree can reach, if the backreferences match their groups
and lead to groups without backreferences. -/
theorem keepsTo_sized {tree : Regex} (hwell : tree.WellFormed) (hsafe : tree.Safe [])
    (hrepeat : ∀ node ∈ tree.visible, node.CanRepeat) (hmatch : tree.HasMatchingReferences)
    (hflat : tree.HasFlatReferences) {target : Nat} (hfloor : tree.minLength ≤ target)
    (htarget : target < Size.largest) : ∃ caps, KeepsTo caps (tree.sized target) target := by
  have hnotes := notes_resize tree target {}
  generalize hplan : ((tree.resize (fun _ ↦ none) target).run {}).2 = plan at hnotes
  have hsized : tree.sized target = ((tree.resize plan.budget? target).run {}).1 := by
    rw [sized, hplan]
  refine ⟨plan.budget?, hsized ▸
    (sizesWithin hwell hrepeat ?_ hfloor ?_ ?_ ?_ hsafe).1 htarget⟩
  · -- A cap is the share of a backreference, which expects the least length of the group.
    intro node hnode
    cases node with
    | group kind body =>
      cases kind with
      | capturing number name =>
        intro id hid cap hcap
        have hshare := (hnotes.origin hcap).resolve_left (by simp [SizingPlan.budget?])
        obtain ⟨extent, hvisible, hle⟩ := min_le_of_mem_shares hrepeat hfloor hshare
        have hrefers : (backref id extent).refersTo (group (.capturing number name) body) = true :=
          List.contains_iff_mem.2 hid
        have hextents := hmatch _ hvisible _ hnode hrefers
        have hextent : extent = body.extent := hextents
        refine ⟨?_, fun inner hinner ↦ ?_⟩
        · rwa [minLength, ← hextent]
        · exact hflat _ hvisible _ hnode hrefers _ (mem_visible_group.2 (.inr ⟨rfl, hinner⟩))
      | plain => exact trivial
      | atomic => exact trivial
      | lookahead negated => exact trivial
      | lookbehind negated => exact trivial
    | empty => exact trivial
    | literal text ignoreCase => exact trivial
    | set members => exact trivial
    | sequence parts => exact trivial
    | choice options => exact trivial
    | repetition body least most mode => exact trivial
    | backref id extent => exact trivial
  · exact fun id share hmem ↦ hnotes.exists_le (.inr hmem)
  · intro id extent cap h
    cases h
  · intro id h
    cases h

end Exemplar.Regex
