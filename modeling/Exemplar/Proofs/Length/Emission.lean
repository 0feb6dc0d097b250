import Exemplar.Proofs.Emission.Basic
import Exemplar.Proofs.Length.Extent
import Exemplar.Proofs.Regex.Shares

/-!
# The lengths of emitted texts

The extent of a tree is right for the texts that the tree emits, provided that the extents which its
backreferences carry are right for the texts that were captured. `sizes` gives an extent to every
group: a tree is measured by it when a group captures no text outside its extent and a backreference
expects every length within it. The captures of a measured tree then stay within `sizes`, and the
texts stay within the extent of the tree (`Emits.length_mem_extent`).
-/

namespace Exemplar

/-- Every captured text has a length in the extent of its group. -/
def Captures.Within (captures : Captures) (sizes : GroupId → Extent) : Prop :=
  ∀ ⦃id text⦄, captures.find? id = some text → text.length ∈ sizes id

namespace Captures.Within

variable {captures : Captures} {sizes : GroupId → Extent}

/-- Before anything was captured, every text is in its extent. -/
theorem nil : Captures.Within [] sizes := by
  intro id text h
  cases h

/-- Recording a text within the extent of its group. -/
theorem record (h : captures.Within sizes) {id : GroupId} {text : List Char}
    (htext : text.length ∈ sizes id) : (captures.record id text).Within sizes := by
  intro other found hfound
  by_cases hid : other = id
  · subst hid
    rw [Captures.find?_record_self] at hfound
    cases hfound
    exact htext
  · rw [Captures.find?_record_of_ne hid] at hfound
    exact h hfound

/-- Recording a text within the extents of several groups. -/
theorem recordAll (h : captures.Within sizes) {ids : List GroupId} {text : List Char}
    (htext : ∀ id ∈ ids, text.length ∈ sizes id) :
    (captures.recordAll ids text).Within sizes := by
  induction ids generalizing captures with
  | nil => exact h
  | cons id ids ih =>
    refine ih (h.record (htext id (by simp))) fun other hother ↦ ?_
    exact htext other (List.mem_cons_of_mem _ hother)

end Captures.Within

namespace Emission

/-- From captures within `sizes`, an emission writes texts within an extent and keeps the captures
within `sizes`. -/
def Measured (emission : Emission) (sizes : GroupId → Extent) (extent : Extent) : Prop :=
  ∀ ⦃before text after⦄, emission before text after → before.Within sizes →
    text.length ∈ extent ∧ after.Within sizes

variable {first second body : Emission} {sizes : GroupId → Extent} {extent extent' : Extent}

/-- A text has its own length. -/
theorem measured_ofText (text : List Char) :
    (ofText text).Measured sizes (.ofLength text.length) := by
  rintro before written after ⟨rfl, rfl⟩ hbefore
  exact ⟨Extent.length_mem_ofLength _, hbefore⟩

/-- Nothing has no length. -/
theorem measured_nothing : (ofText []).Measured sizes .zero := by
  rw [← Extent.ofLength_zero]
  exact measured_ofText []

/-- The lengths of emissions in a row add up. -/
theorem Measured.andThen (hfirst : first.Measured sizes extent)
    (hsecond : second.Measured sizes extent') :
    (first.andThen second).Measured sizes (extent.followedBy extent') := by
  rintro before text after ⟨left, middle, right, hleft, hright, rfl⟩ hbefore
  obtain ⟨hlength, hmiddle⟩ := hfirst hleft hbefore
  obtain ⟨hlength', hafter⟩ := hsecond hright hmiddle
  rw [List.length_append]
  exact ⟨Extent.mem_followedBy hlength hlength', hafter⟩

/-- A number of copies is at least as long as that many shortest ones and no longer than that many
times some allowed length. -/
theorem Measured.copies (h : body.Measured sizes extent) (count : Nat) {before after : Captures}
    {text : List Char} (hcopies : body.copies count before text after)
    (hbefore : before.Within sizes) :
    (extent.min * count ≤ text.length ∧
      ∃ each, extent.max.Allows each ∧ text.length ≤ each * count) ∧
        after.Within sizes := by
  induction count generalizing before text with
  | zero =>
    obtain ⟨rfl, rfl⟩ := hcopies
    exact ⟨⟨Nat.le_refl _, 0, Bound.allows_zero _, Nat.le_refl _⟩, hbefore⟩
  | succ count ih =>
    obtain ⟨left, middle, right, hleft, hright, rfl⟩ := hcopies
    obtain ⟨⟨hlow, hhigh⟩, hmiddle⟩ := h hleft hbefore
    obtain ⟨⟨hlow', each, heach, hhigh'⟩, hafter⟩ := ih hright hmiddle
    rw [List.length_append, Nat.mul_succ]
    refine ⟨⟨by omega, max left.length each, ?_, ?_⟩, hafter⟩
    · rcases Nat.le_total left.length each with hle | hle
      · rwa [Nat.max_eq_right hle]
      · rwa [Nat.max_eq_left hle]
    · have := Nat.mul_le_mul_right count (Nat.le_max_right left.length each)
      have := Nat.le_max_left left.length each
      rw [Nat.mul_succ]
      omega

/-- A capturing emission keeps the captures within `sizes` when its texts belong there. -/
theorem Measured.capturing (h : body.Measured sizes extent) {ids : List GroupId}
    (hids : ∀ id ∈ ids, extent.Within (sizes id)) :
    (body.capturing ids).Measured sizes extent := by
  rintro before text after ⟨inner, hbody, rfl⟩ hbefore
  obtain ⟨hlength, hinner⟩ := h hbody hbefore
  exact ⟨hlength, hinner.recordAll fun id hid ↦ (hids id hid).mem hlength⟩

end Emission

namespace Regex

/-- What a group owes to the extent of its number and name, and what a backreference may expect of
it. -/
def IsMeasured (sizes : GroupId → Extent) : Regex → Prop
  | group (.capturing number name) body =>
      ∀ id ∈ groupIds number name, body.extent.Within (sizes id)
  | backref id extent => (sizes id).Within extent
  | _ => True

variable {sizes : GroupId → Extent}

/-- Parts in a row that are measured are measured together. -/
theorem emitsAll_measured {parts : List Regex}
    (h : ∀ part ∈ parts, part.Emits.Measured sizes part.extent) :
    (EmitsAll parts).Measured sizes (Extent.inSequence (parts.map extent)) := by
  induction parts with
  | nil => exact Emission.measured_nothing
  | cons part parts ih =>
    refine (h part (by simp)).andThen (ih fun other hother ↦ ?_)
    exact h other (List.mem_cons_of_mem _ hother)

/-- A tree that is measured outside of its assertions emits texts within its extent, and keeps
captures within the extents of their groups. -/
theorem emits_measured_of_visible {tree : Regex}
    (h : ∀ node ∈ tree.visible, node.IsMeasured sizes) :
    tree.Emits.Measured sizes tree.extent := by
  induction tree with
  | empty => exact Emission.measured_nothing
  | literal text ignoreCase => exact Emission.measured_ofText text
  | set members =>
    rintro before text after ⟨c, -, rfl, rfl⟩ hbefore
    exact ⟨Extent.length_mem_ofLength 1, hbefore⟩
  | sequence parts ih =>
    rw [forall_visible_sequence] at h
    have hparts := emitsAll_measured fun part hpart ↦ ih part hpart (h.2 part hpart)
    rwa [← extents_eq_map] at hparts
  | choice options ih =>
    rw [forall_visible_choice] at h
    intro before text after hemits hbefore
    obtain ⟨option, hoption, hemits⟩ := emitsAny_iff.1 hemits
    obtain ⟨hlength, hafter⟩ := ih option hoption (h.2 option hoption) hemits hbefore
    refine ⟨?_, hafter⟩
    rw [extent, extents_eq_map]
    exact Extent.mem_anyOf (List.mem_map_of_mem hoption) hlength
  | repetition body least most mode ih =>
    rw [forall_visible_repetition] at h
    rintro before text after ⟨count, hleast, hmost, hcopies⟩ hbefore
    obtain ⟨⟨hlow, each, heach, hhigh⟩, hafter⟩ := (ih h.2).copies count hcopies hbefore
    exact ⟨Extent.mem_repeated hleast hmost hlow heach hhigh, hafter⟩
  | group kind body ih =>
    rw [forall_visible_group] at h
    cases kind with
    | capturing number name => exact (ih (h.2 rfl)).capturing h.1
    | plain => exact ih (h.2 rfl)
    | atomic => exact ih (h.2 rfl)
    | lookahead negated => exact Emission.measured_nothing
    | lookbehind negated => exact Emission.measured_nothing
  | backref id extent =>
    rintro before text after ⟨hfind, rfl⟩ hbefore
    have hwithin : (sizes id).Within extent := h _ (mem_visible_self _)
    exact ⟨hwithin.mem (hbefore hfind), hbefore⟩

/-- A measured tree emits texts within its extent, and keeps captures within the extents of their
groups. -/
theorem emits_measured {tree : Regex} (h : tree.Everywhere (IsMeasured sizes)) :
    tree.Emits.Measured sizes tree.extent :=
  emits_measured_of_visible fun _ hnode ↦ (h.of_mem_visible hnode).here

/-- A text that a measured tree emits before anything was captured has a length in its extent. -/
theorem Emits.length_mem_extent {tree : Regex} (h : tree.Everywhere (IsMeasured sizes))
    {text : List Char} {after : Captures} (hemits : tree.Emits [] text after) :
    text.length ∈ tree.extent :=
  (emits_measured h hemits .nil).1

end Regex

end Exemplar
