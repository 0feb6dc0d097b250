import Exemplar.Proofs.Emission.Basic
import Exemplar.Proofs.Regex.Shares

/-!
# What a plan knows of the groups

While a tree is sized, the plan takes note of the extent of every group that is sized. Behind every
text of the sized tree, the groups that have captured something are therefore among those that the
plan knows (`learns_resize`), and a backreference finds the extent of its group there.
-/

namespace Exemplar

/-- A group that has a text behind copies had one before them or gets one from the body. -/
theorem Emission.isSome_of_copies {body : Emission} {id : GroupId} {captured : Prop}
    (h : ∀ ⦃before text after⦄, body before text after → (after.find? id).isSome = true →
      (before.find? id).isSome = true ∨ captured)
    {count : Nat} {before after : Captures} {text : List Char}
    (hcopies : body.copies count before text after) (hfound : (after.find? id).isSome = true) :
    (before.find? id).isSome = true ∨ captured := by
  induction count generalizing before text with
  | zero => exact .inl (hcopies.2 ▸ hfound)
  | succ count ih =>
    obtain ⟨left, middle, right, hleft, hright, rfl⟩ := hcopies
    exact (ih hright).elim (h hleft) .inr

namespace Captures

/-- A group has a text only if it had one or a text is recorded for it. -/
theorem of_isSome_find?_recordAll {captures : Captures} {ids : List GroupId} {id : GroupId}
    {text : List Char} (h : ((captures.recordAll ids text).find? id).isSome = true) :
    (captures.find? id).isSome = true ∨ id ∈ ids := by
  induction ids generalizing captures with
  | nil => exact .inl h
  | cons head ids ih =>
    have hrest : (((captures.record head text).recordAll ids text).find? id).isSome = true := h
    rcases ih hrest with h | h
    · by_cases hid : id = head
      · exact .inr (by simp [hid])
      · rw [find?_record_of_ne hid] at h
        exact .inl h
    · exact .inr (List.mem_cons_of_mem _ h)

end Captures

namespace SizingPlan

/-- The other groups keep their extents. -/
theorem group?_noteGroup_of_ne {plan : SizingPlan} {id other : GroupId} (h : other ≠ id)
    (extent : Extent) : (plan.noteGroup id extent).group? other = plan.group? other :=
  lookup_cons_filter_of_ne h _ _

/-- A group has the extent that is noted. -/
theorem group?_noteGroup_self (plan : SizingPlan) (id : GroupId) (extent : Extent) :
    (plan.noteGroup id extent).group? id = some extent := by
  simp [group?, noteGroup]

/-- After the extent of a group was noted under several references, these lead to the extent and the
others lead to what they led to. -/
theorem group?_noteGroups (plan : SizingPlan) (ids : List GroupId) (extent : Extent)
    (id : GroupId) :
    (plan.noteGroups ids extent).group? id =
      if id ∈ ids then some extent else plan.group? id := by
  induction ids generalizing plan with
  | nil => rfl
  | cons head ids ih =>
    show ((plan.noteGroup head extent).noteGroups ids extent).group? id = _
    rw [ih]
    by_cases hid : id = head
    · subst head
      simp [group?_noteGroup_self]
    · simp [hid, group?_noteGroup_of_ne hid]

/-- Every group with a text has an extent in the plan. -/
def Knows (plan : SizingPlan) (captures : Captures) : Prop :=
  ∀ id, (captures.find? id).isSome = true → (plan.group? id).isSome = true

/-- The groups whose extents are in the plan keep to their caps. -/
def KeepsCaps (plan : SizingPlan) (caps : GroupId → Option Nat) : Prop :=
  ∀ ⦃id extent cap⦄, plan.group? id = some extent → caps id = some cap →
    cap < Size.largest → extent.Within (.upTo cap)

/-- A plan that grows does not lose the extent of a group, and an emission captures only groups
whose extents the later plan has. -/
structure Learns (plan : SizingPlan) (emission : Emission) (after : SizingPlan) : Prop where
  isSome {id : GroupId} : (plan.group? id).isSome = true → (after.group? id).isSome = true
  captures {before later : Captures} {text : List Char} {id : GroupId} :
    emission before text later → (later.find? id).isSome = true →
      (before.find? id).isSome = true ∨ (after.group? id).isSome = true

namespace Learns

variable {plan middle after : SizingPlan} {first second body : Emission}

/-- A plan grows with a text, for which no group is captured. -/
theorem ofText (plan : SizingPlan) (text : List Char) : plan.Learns (.ofText text) plan where
  isSome := id
  captures := by
    rintro before later written id ⟨-, rfl⟩ h
    exact .inl h

/-- A plan that grows with two emissions, one after the other, grows with both in a row. -/
theorem andThen (hfirst : plan.Learns first middle) (hsecond : middle.Learns second after) :
    plan.Learns (first.andThen second) after where
  isSome h := hsecond.isSome (hfirst.isSome h)
  captures := by
    rintro before later text id ⟨left, between, right, hleft, hright, rfl⟩ h
    rcases hsecond.captures hright h with h | h
    · exact (hfirst.captures hleft h).imp_right hsecond.isSome
    · exact .inr h

/-- A plan that grows with a body grows with copies of the body. -/
theorem copies (h : plan.Learns body after) (count : Nat) {before later : Captures}
    {text : List Char} (hcopies : body.copies count before text later) {id : GroupId}
    (hfound : (later.find? id).isSome = true) :
    (before.find? id).isSome = true ∨ (after.group? id).isSome = true :=
  Emission.isSome_of_copies (fun _ _ _ hemits hfound ↦ h.captures hemits hfound) hcopies hfound

/-- A plan that grows with a body grows with the group that captures the body when the group is
noted behind it, under its number and its name. -/
theorem capturing (h : plan.Learns body after) (ids : List GroupId) (extent : Extent) :
    plan.Learns (body.capturing ids) (after.noteGroups ids extent) where
  isSome {id} hfound := by
    rw [group?_noteGroups]
    split
    · rfl
    · exact h.isSome hfound
  captures := by
    rintro before later text id ⟨inner, hemits, rfl⟩ hfound
    rw [group?_noteGroups]
    split
    · exact .inr rfl
    · rename_i hid
      exact h.captures hemits ((Captures.of_isSome_find?_recordAll hfound).resolve_right hid)

/-- A plan that knew the groups with a text still knows them. -/
theorem knows (h : plan.Learns body after) {captures : Captures} (hknows : plan.Knows captures) :
    after.Knows captures :=
  fun id hfound ↦ h.isSome (hknows id hfound)

/-- A plan that knew the groups with a text knows those behind the emission. -/
theorem knows_later (h : plan.Learns body after) {before later : Captures} {text : List Char}
    (hknows : plan.Knows before) (hemits : body before text later) : after.Knows later :=
  fun id hfound ↦ (h.captures hemits hfound).elim (h.knows hknows id) fun hfound ↦ hfound

end Learns

end SizingPlan

namespace Regex

/-- Sizing the tree notes the extents of the groups that the sized tree captures. -/
def LearnsGroups (caps : GroupId → Option Nat) (tree : Regex) : Prop :=
  ∀ target plan, SizingPlan.Learns plan ((tree.resize caps target).run plan).1.Emits
    ((tree.resize caps target).run plan).2

variable {caps : GroupId → Option Nat}

/-- Sizing parts in a row notes the groups of all of them. -/
theorem learns_resizeParts {parts : List Regex} (h : ∀ part ∈ parts, part.LearnsGroups caps)
    (targets : List Nat) (plan : SizingPlan) :
    plan.Learns (EmitsAll ((resizeParts caps parts targets).run plan).1)
      ((resizeParts caps parts targets).run plan).2 := by
  induction parts generalizing targets plan with
  | nil => exact .ofText plan []
  | cons part parts ih =>
    obtain ⟨hpart, hparts⟩ := List.forall_mem_cons.1 h
    cases targets with
    | nil => exact .ofText plan []
    | cons target targets => exact (hpart target plan).andThen (ih hparts _ _)

/-- Sizing options notes the groups of those that are kept. -/
theorem learns_resizeOptions {options : List Regex}
    (h : ∀ option ∈ options, option.LearnsGroups caps) (reach target : Nat)
    (plan : SizingPlan) :
    plan.Learns (EmitsAny ((resizeOptions caps reach options target).run plan).1)
      ((resizeOptions caps reach options target).run plan).2 := by
  induction options generalizing plan with
  | nil => exact ⟨id, fun h ↦ h.elim⟩
  | cons option options ih =>
    obtain ⟨hoption, hoptions⟩ := List.forall_mem_cons.1 h
    rw [resizeOptions]
    split
    · have hfirst := hoption target plan
      have hrest := ih hoptions ((option.resize caps target).run plan).2
      refine ⟨fun h ↦ hrest.isSome (hfirst.isSome h), fun hemits h ↦ ?_⟩
      -- What this option captured is noted before the others are sized, and stays noted.
      rcases hemits with hemits | hemits
      · exact (hfirst.captures hemits h).imp_right hrest.isSome
      · exact hrest.captures hemits h
    · exact ih hoptions plan

/-- Sizing a tree notes the extents of the groups that the sized tree captures. -/
theorem learns_resize (tree : Regex) (caps : GroupId → Option Nat) (target : Nat)
    (plan : SizingPlan) :
    plan.Learns ((tree.resize caps target).run plan).1.Emits
      ((tree.resize caps target).run plan).2 := by
  induction tree generalizing target plan with
  | empty => exact .ofText plan []
  | literal text ignoreCase => exact .ofText plan text
  | set members =>
    refine ⟨id, ?_⟩
    rintro before later text id ⟨c, -, -, rfl⟩ h
    exact .inl h
  | sequence parts ih => exact learns_resizeParts (fun part hpart ↦ ih part hpart) _ plan
  | choice options ih =>
    exact learns_resizeOptions (fun option hoption ↦ ih option hoption) _ target plan
  | repetition body least most mode ih =>
    have hbody := ih (Extent.fitRepetition body.extent least most target).2 plan
    refine ⟨hbody.isSome, ?_⟩
    rintro before later text id ⟨count, -, -, hcopies⟩ h
    exact hbody.copies count hcopies h
  | group kind body ih =>
    cases kind with
    | capturing number name =>
      rw [resize_capturing]
      exact (ih (groupCap caps number name target) plan).capturing ..
    | plain => exact ih target plan
    | atomic => exact ih target plan
    | lookahead negated => exact .ofText plan []
    | lookbehind negated => exact .ofText plan []
  | backref id extent =>
    refine ⟨fun {id} h ↦ h, ?_⟩
    rintro before later text id ⟨-, rfl⟩ h
    exact .inl h

end Regex

end Exemplar
