import Exemplar.Proofs.Emission.Learning
import Exemplar.Proofs.Generation.Safety
import Exemplar.Proofs.Length.Emission
import Exemplar.Proofs.Random.Lawful
import Exemplar.Proofs.Regex.NormalForm
import Exemplar.Proofs.Regex.Shares

/-!
# Every part of a safe tree is reached

A tree in normal form has no repetition without copies, so some emission reaches each of its parts:
if the tree is safe behind some captures, then every part outside of assertions is safe behind the
captures of an emission that leads there, and these captures have whatever property the parts hand
on (`exists_safe_of_mem_visible`). A part that is reached has a text, so its extent is not empty
(`valid_of_safe`), and a repetition that is reached may be repeated (`canRepeat_of_safe`). A
backreference that is reached finds a text there, so it leads to a group of the tree
(`exists_group_of_backref`).
-/

namespace Exemplar.Regex

/-- Whether the tree is a group that is referred to in the given way. -/
def IsGroupOf (id : GroupId) : Regex → Prop
  | group (.capturing number name) _ => id ∈ groupIds number name
  | _ => False

/-- A group that has a text behind an emission had one before or is a group of the tree. -/
theorem Emits.exists_group {tree : Regex} {before after : Captures} {text : List Char}
    {id : GroupId} (h : tree.Emits before text after) (hfound : (after.find? id).isSome = true) :
    (before.find? id).isSome = true ∨ ∃ node ∈ tree.visible, node.IsGroupOf id := by
  induction tree generalizing before text after with
  | empty => exact .inl (h.2 ▸ hfound)
  | literal text ignoreCase => exact .inl (h.2 ▸ hfound)
  | set members =>
    obtain ⟨c, -, -, rfl⟩ := h
    exact .inl hfound
  | sequence parts ih =>
    have hparts : (before.find? id).isSome = true ∨
        ∃ part ∈ parts, ∃ node ∈ part.visible, node.IsGroupOf id := by
      rw [Emits] at h
      induction parts generalizing before text with
      | nil => exact .inl (h.2 ▸ hfound)
      | cons part parts ihparts =>
        obtain ⟨left, middle, right, hleft, hright, rfl⟩ := h
        rcases ihparts (fun other hother ↦ ih other (List.mem_cons_of_mem _ hother)) hright with
          hmiddle | ⟨other, hother, hnode⟩
        · exact (ih part (by simp) hleft hmiddle).imp_right fun hnode ↦
            ⟨part, by simp, hnode⟩
        · exact .inr ⟨other, List.mem_cons_of_mem _ hother, hnode⟩
    refine hparts.imp_right ?_
    rintro ⟨part, hpart, node, hnode, hgroup⟩
    exact ⟨node, mem_visible_sequence.2 (.inr ⟨part, hpart, hnode⟩), hgroup⟩
  | choice options ih =>
    obtain ⟨option, hoption, hemits⟩ := emitsAny_iff.1 h
    refine (ih option hoption hemits hfound).imp_right ?_
    rintro ⟨node, hnode, hgroup⟩
    exact ⟨node, mem_visible_choice.2 (.inr ⟨option, hoption, hnode⟩), hgroup⟩
  | repetition body least most mode ih =>
    obtain ⟨count, -, -, hcopies⟩ := h
    refine (Emission.isSome_of_copies (fun _ _ _ hemits ↦ ih hemits) hcopies hfound).imp_right ?_
    rintro ⟨node, hnode, hgroup⟩
    exact ⟨node, mem_visible_repetition.2 (.inr hnode), hgroup⟩
  | group kind body ih =>
    have hbody {inner : Captures} (hkind : kind.isLookaround = false)
        (hemits : body.Emits before text inner) (hfound : (inner.find? id).isSome = true) :
        (before.find? id).isSome = true ∨
        ∃ node ∈ (group kind body).visible, node.IsGroupOf id := by
      refine (ih hemits hfound).imp_right ?_
      rintro ⟨node, hnode, hgroup⟩
      exact ⟨node, mem_visible_group.2 (.inr ⟨hkind, hnode⟩), hgroup⟩
    cases kind with
    | capturing number name =>
      obtain ⟨inner, hemits, rfl⟩ := h
      rcases Captures.of_isSome_find?_recordAll hfound with hfound | hid
      · exact hbody rfl hemits hfound
      · exact .inr ⟨_, mem_visible_self _, hid⟩
    | plain => exact hbody rfl h hfound
    | atomic => exact hbody rfl h hfound
    | lookahead negated => exact .inl (h.2 ▸ hfound)
    | lookbehind negated => exact .inl (h.2 ▸ hfound)
  | backref id' extent => exact .inl (h.2 ▸ hfound)

/-- A safe tree emits something. -/
theorem exists_emits {tree : Regex} (hwell : tree.WellFormed) {before : Captures}
    (hsafe : tree.Safe before) : ∃ text after, tree.Emits before text after := by
  obtain ⟨draft, hrun⟩ := emit_completes hwell none
    { source := (default : Lcg), captures := before } hsafe
  obtain ⟨text, -, hemits⟩ := emit_writes hwell none hrun
  exact ⟨text, draft.captures, hemits⟩

/-- A safe tree that is measured has a length. -/
theorem Safe.valid {tree : Regex} {sizes : GroupId → Extent} {before : Captures}
    (h : tree.Safe before) (hwell : tree.WellFormed)
    (hmeasured : ∀ node ∈ tree.visible, node.IsMeasured sizes)
    (hbefore : before.Within sizes) : tree.extent.Valid := by
  obtain ⟨text, after, hemits⟩ := exists_emits hwell h
  have hlength := (emits_measured_of_visible hmeasured hemits hbefore).1
  exact hlength.2.mono hlength.1

/-- The body of a group that is no assertion is safe where the group is. -/
theorem Safe.of_group {kind : GroupKind} {body : Regex} {before : Captures}
    (h : (group kind body).Safe before) (hkind : kind.isLookaround = false) : body.Safe before := by
  cases kind with
  | capturing number name => exact h
  | plain => exact h
  | atomic => exact h
  | lookahead negated => cases hkind
  | lookbehind negated => cases hkind

/-- The body of a repetition that allows copies is safe where the repetition is. -/
theorem Safe.of_repetition {body : Regex} {least : Nat} {most : Bound} {mode : RepetitionMode}
    {before : Captures} (h : (repetition body least most mode).Safe before) (hsome : most ≠ 0) :
    body.Safe before :=
  (Emission.always_ofText []).1 (h 0 ((Bound.eq_zero_or_allows_one most).resolve_left hsome))

/-- Every one of some safe parts in a row is safe behind captures that have any property which the
parts hand on. -/
theorem exists_safe_of_mem {parts : List Regex} (hwell : ∀ part ∈ parts, part.WellFormed)
    (good : Captures → Prop) (hgood : ∀ part ∈ parts, ∀ ⦃before text after⦄,
      part.Emits before text after → good before → good after)
    {before : Captures} (hbefore : good before) (hsafe : SafeAll parts before) {part : Regex}
    (hpart : part ∈ parts) : ∃ captures, good captures ∧ part.Safe captures := by
  induction parts generalizing before with
  | nil => cases hpart
  | cons head parts ih =>
    rcases List.mem_cons.1 hpart with rfl | hpart
    · exact ⟨before, hbefore, hsafe.1⟩
    · -- The parts behind the first one are safe behind each of its texts, and it has one.
      obtain ⟨text, middle, hemits⟩ := exists_emits (hwell head (by simp)) hsafe.1
      exact ih (fun other hother ↦ hwell other (List.mem_cons_of_mem _ hother))
        (fun other hother ↦ hgood other (List.mem_cons_of_mem _ hother))
        (hgood head (by simp) hemits hbefore) (hsafe.2 hemits) hpart

/-- Every one of some safe parts in a row that are measured has a length. -/
theorem valid_of_safeAll {parts : List Regex} {sizes : GroupId → Extent} {before : Captures}
    (hsafe : SafeAll parts before) (hwell : ∀ part ∈ parts, part.WellFormed)
    (hmeasured : ∀ part ∈ parts, ∀ node ∈ part.visible, node.IsMeasured sizes)
    (hbefore : before.Within sizes) : ∀ part ∈ parts, part.extent.Valid := by
  intro part hpart
  obtain ⟨captures, hwithin, hsafe⟩ := exists_safe_of_mem hwell (·.Within sizes)
    (fun other hother _ _ _ hemits hwithin ↦
      (emits_measured_of_visible (hmeasured other hother) hemits hwithin).2) hbefore hsafe hpart
  exact hsafe.valid (hwell part hpart) (hmeasured part hpart) hwithin

/-- Every part of a safe tree in normal form is safe behind captures that have any property which
the parts of the tree hand on. -/
theorem exists_safe_of_mem_visible {tree node : Regex} (hnormal : tree.Everywhere IsNormal)
    (hwell : tree.WellFormed) (good : Captures → Prop)
    (hgood : ∀ part ∈ tree.visible, ∀ ⦃before text after⦄,
      part.Emits before text after → good before → good after)
    {before : Captures} (hbefore : good before) (hsafe : tree.Safe before)
    (hnode : node ∈ tree.visible) : ∃ captures, good captures ∧ node.Safe captures := by
  induction tree generalizing before with
  | empty => exact ⟨before, hbefore, List.mem_singleton.1 hnode ▸ hsafe⟩
  | literal text ignoreCase => exact ⟨before, hbefore, List.mem_singleton.1 hnode ▸ hsafe⟩
  | set members => exact ⟨before, hbefore, List.mem_singleton.1 hnode ▸ hsafe⟩
  | sequence parts ih =>
    rcases mem_visible_sequence.1 hnode with rfl | ⟨part, hpart, hnode⟩
    · exact ⟨before, hbefore, hsafe⟩
    · rw [wellFormed_sequence] at hwell
      have hinside {part node : Regex} (hpart : part ∈ parts) (hnode : node ∈ part.visible) :
          node ∈ (sequence parts).visible :=
        mem_visible_sequence.2 (.inr ⟨part, hpart, hnode⟩)
      obtain ⟨middle, hmiddle, hsafe⟩ := exists_safe_of_mem hwell good
        (fun part hpart ↦ hgood part (hinside hpart (mem_visible_self part))) hbefore hsafe hpart
      exact ih part hpart ((everywhere_sequence.1 hnormal).2 part hpart) (hwell part hpart)
        (fun node hnode ↦ hgood node (hinside hpart hnode)) hmiddle hsafe hnode
  | choice options ih =>
    rcases mem_visible_choice.1 hnode with rfl | ⟨option, hoption, hnode⟩
    · exact ⟨before, hbefore, hsafe⟩
    · rw [wellFormed_choice] at hwell
      exact ih option hoption ((everywhere_choice.1 hnormal).2 option hoption)
        (hwell.2 option hoption)
        (fun part hpart ↦ hgood part (mem_visible_choice.2 (.inr ⟨option, hoption, hpart⟩)))
        hbefore (safeEach_iff.1 hsafe option hoption) hnode
  | repetition body least most mode ih =>
    rcases mem_visible_repetition.1 hnode with rfl | hnode
    · exact ⟨before, hbefore, hsafe⟩
    · obtain ⟨⟨-, hsome, -⟩, hnormal⟩ := everywhere_repetition.1 hnormal
      rw [wellFormed_repetition] at hwell
      exact ih hnormal hwell.2 (fun part hpart ↦
        hgood part (mem_visible_repetition.2 (.inr hpart)))
        hbefore (hsafe.of_repetition hsome) hnode
  | group kind body ih =>
    rcases mem_visible_group.1 hnode with rfl | ⟨hkind, hnode⟩
    · exact ⟨before, hbefore, hsafe⟩
    · rw [wellFormed_group] at hwell
      exact ih (everywhere_group.1 hnormal).2 hwell
        (fun part hpart ↦ hgood part (mem_visible_group.2 (.inr ⟨hkind, hpart⟩))) hbefore
        (hsafe.of_group hkind) hnode
  | backref id extent => exact ⟨before, hbefore, List.mem_singleton.1 hnode ▸ hsafe⟩

section Measured

variable {sizes : GroupId → Extent} {tree node : Regex} {before : Captures}
  (hnormal : tree.Everywhere IsNormal) (hwell : tree.WellFormed)
  (hmeasured : tree.Everywhere (IsMeasured sizes)) (hbefore : before.Within sizes)
  (hsafe : tree.Safe before)

include hnormal hwell hmeasured hbefore hsafe

/-- Every part of a safe tree in normal form is safe behind captures that are no longer and no
shorter than expected. -/
theorem exists_within_of_mem_visible (hnode : node ∈ tree.visible) :
    ∃ captures : Captures, captures.Within sizes ∧ node.Safe captures :=
  exists_safe_of_mem_visible hnormal hwell (·.Within sizes)
    (fun _ hpart _ _ _ hemits hwithin ↦
      (emits_measured (hmeasured.of_mem_visible hpart) hemits hwithin).2)
    hbefore hsafe hnode

/-- Every part of a safe tree in normal form has a length. -/
theorem valid_of_safe (hnode : node ∈ tree.visible) : node.extent.Valid := by
  obtain ⟨captures, hcaptures, hsafe⟩ :=
    exists_within_of_mem_visible hnormal hwell hmeasured hbefore hsafe hnode
  exact hsafe.valid (Everywhere.of_mem_visible hwell hnode)
    (fun _ hinner ↦ ((hmeasured.of_mem_visible hnode).of_mem_visible hinner).here) hcaptures

/-- Every repetition in a safe tree in normal form may be repeated. -/
theorem canRepeat_of_safe : ∀ node ∈ tree.visible, node.CanRepeat := by
  intro node hnode
  cases node with
  | repetition body least most mode =>
    have hbody : body ∈ tree.visible :=
      mem_visible_trans (mem_visible_repetition.2 (.inr (mem_visible_self body))) hnode
    obtain ⟨⟨-, hsome, -, hleast⟩, -⟩ :=
      everywhere_repetition.1 (hnormal.of_mem_visible hnode)
    obtain ⟨⟨-, hsize⟩, -⟩ :=
      wellFormed_repetition.1 (Everywhere.of_mem_visible hwell hnode)
    have hone : most.Allows 1 := (Bound.eq_zero_or_allows_one most).resolve_left hsome
    refine ⟨?_, hsize, valid_of_safe hnormal hwell hmeasured hbefore hsafe hbody⟩
    rcases Nat.le_total least 1 with hle | hle
    · rwa [Nat.max_eq_right hle]
    · rwa [Nat.max_eq_left hle]
  | empty => exact trivial
  | literal text ignoreCase => exact trivial
  | set members => exact trivial
  | sequence parts => exact trivial
  | choice options => exact trivial
  | group kind body => exact trivial
  | backref id extent => exact trivial

end Measured

/-- A backreference in a tree in normal form that is safe before anything was captured leads to a
group of the tree. -/
theorem exists_group_of_backref {tree : Regex} (hnormal : tree.Everywhere IsNormal)
    (hwell : tree.WellFormed) (hsafe : tree.Safe []) {id : GroupId} {extent : Extent}
    (h : backref id extent ∈ tree.visible) : ∃ node ∈ tree.visible, node.IsGroupOf id := by
  -- Whatever has a text when the backreference is reached is a group of the tree.
  obtain ⟨captures, hcaptures, hfound⟩ := exists_safe_of_mem_visible hnormal hwell
    (fun captures ↦ ∀ id, (captures.find? id).isSome = true →
      ∃ node ∈ tree.visible, node.IsGroupOf id)
    (fun part hpart before text after hemits hbefore id hfound ↦
      (hemits.exists_group hfound).elim (hbefore id) fun ⟨node, hnode, hgroup⟩ ↦
        ⟨node, mem_visible_trans hnode hpart, hgroup⟩)
    (fun id hfound ↦ by cases hfound) hsafe h
  exact hcaptures id hfound

end Exemplar.Regex
