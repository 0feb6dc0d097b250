import Exemplar.Proofs.Checked.Arithmetic
import Exemplar.Proofs.Length.Settling

/-!
# Checked sizing

When some length lies in the extent of every tree inside a tree, sizing it with checked arithmetic
for a target that is a size never fails, and makes the tree that wrapped arithmetic makes
(`sized?_eq`). Some length lies then in every extent in the sized tree too (`valid_sized`).
-/

namespace Exemplar.Regex

variable {caps : GroupId → Option Nat} {tree : Regex} {parts options : List Regex}

/-- Sizing the tree with checked arithmetic never fails, and does what sizing the tree does. -/
def NeverFails (caps : GroupId → Option Nat) (tree : Regex) : Prop :=
  ∀ ⦃target : Nat⦄, target < Size.modulus → ∀ plan,
    (tree.resize? caps target).run plan = some ((tree.resize caps target).run plan)

/-- Sizing parts in a row never fails when sizing each part does not. -/
theorem resizeParts?_eq (h : ∀ part ∈ parts, part.NeverFails caps) {targets : List Nat}
    (htargets : ∀ target ∈ targets, target < Size.modulus) (plan : SizingPlan) :
    (resizeParts? caps parts targets).run plan =
      some ((resizeParts caps parts targets).run plan) := by
  induction parts generalizing targets plan with
  | nil => rfl
  | cons part parts ih =>
    cases targets with
    | nil => rfl
    | cons target targets =>
      rw [List.forall_mem_cons] at h htargets
      have hpart := h.1 htargets.1 plan
      have hparts := ih h.2 htargets.2 ((part.resize caps target).run plan).2
      simp only [resizeParts?, StateT.run_bind, hpart, Option.bind_eq_bind,
        Option.bind_some, hparts]
      rfl

/-- Sizing options never fails when sizing each option does not. -/
theorem resizeOptions?_eq (h : ∀ option ∈ options, option.NeverFails caps) (reach : Nat)
    {target : Nat} (htarget : target < Size.modulus) (plan : SizingPlan) :
    (resizeOptions? caps reach options target).run plan =
      some ((resizeOptions caps reach options target).run plan) := by
  induction options generalizing plan with
  | nil => rfl
  | cons option options ih =>
    rw [List.forall_mem_cons] at h
    rw [resizeOptions?, resizeOptions]
    split
    · have hoption := h.1 htarget plan
      have hoptions := ih h.2 ((option.resize caps target).run plan).2
      simp only [StateT.run_bind, hoption, Option.bind_eq_bind, Option.bind_some, hoptions]
      rfl
    · exact ih h.2 plan

/-- Sizing never fails when some length lies in the extent of every tree inside. -/
theorem neverFails (hvalid : ∀ node ∈ tree.visible, node.extent.Valid) :
    tree.NeverFails caps := by
  induction tree with
  | empty => exact fun target htarget plan ↦ rfl
  | literal text ignoreCase => exact fun target htarget plan ↦ rfl
  | set members => exact fun target htarget plan ↦ rfl
  | sequence parts ih =>
    rw [forall_visible_sequence] at hvalid
    have hextents : ∀ extent ∈ extents parts, extent.Valid := by
      rw [extents_eq_map, List.forall_mem_map]
      exact fun part hpart ↦ hvalid.2 part hpart part (mem_visible_self part)
    intro target htarget plan
    have htargets (budget : Nat) (h : budget ∈ Extent.splitTarget (extents parts) target) :
        budget < Size.modulus := Extent.lt_modulus_of_mem_splitTarget htarget h
    have hparts :=
      resizeParts?_eq (fun part hpart ↦ ih part hpart (hvalid.2 part hpart)) htargets plan
    rw [resize?, Extent.splitTarget?_eq hextents htarget]
    show ((resizeParts? caps parts _).run plan).bind _ = _
    rw [hparts]
    rfl
  | choice options ih =>
    rw [forall_visible_choice] at hvalid
    intro target htarget plan
    have hoptions :=
      resizeOptions?_eq (fun option hoption ↦ ih option hoption (hvalid.2 option hoption))
      (max target (choice options).minLength) htarget plan
    rw [resize?]
    show ((resizeOptions? caps _ options target).run plan).bind _ = _
    rw [hoptions]
    rfl
  | repetition body least most mode ih =>
    rw [forall_visible_repetition] at hvalid
    intro target htarget plan
    rcases hfit : Extent.fitRepetition body.extent least most target with ⟨count, each⟩
    have heach := Extent.fitRepetition_lt_modulus body.extent least most htarget
    rw [hfit] at heach
    rw [resize?, Extent.fitRepetition?_eq, hfit, resize_repetition hfit]
    show ((body.resize? caps each).run plan).bind _ = _
    rw [ih hvalid.2 heach plan]
    rfl
  | group kind body ih =>
    rw [forall_visible_group] at hvalid
    cases kind with
    | capturing number name =>
      intro target htarget plan
      have hcap : groupCap caps number name target ≤ target :=
        (le_groupCap_iff.1 (Nat.le_refl _)).1
      have hbody := ih (hvalid.2 rfl) (Nat.lt_of_le_of_lt hcap htarget) plan
      rw [resize?]
      show ((body.resize? caps _).run plan).bind _ = _
      rw [hbody]
      rfl
    | plain =>
      intro target htarget plan
      show ((body.resize? caps target).run plan).bind _ = _
      rw [ih (hvalid.2 rfl) htarget plan]
      rfl
    | atomic =>
      intro target htarget plan
      show ((body.resize? caps target).run plan).bind _ = _
      rw [ih (hvalid.2 rfl) htarget plan]
      rfl
    | lookahead negated => exact fun target htarget plan ↦ rfl
    | lookbehind negated => exact fun target htarget plan ↦ rfl
  | backref id extent => exact fun target htarget plan ↦ rfl

/-- Sizing a tree with checked arithmetic makes the sized tree. -/
theorem sized?_eq (hvalid : ∀ node ∈ tree.visible, node.extent.Valid) {target : Nat}
    (htarget : target < Size.modulus) : tree.sized? target = some (tree.sized target) := by
  rw [sized?, neverFails hvalid htarget]
  show ((tree.resize? _ target).run {}).bind _ = _
  rw [neverFails hvalid htarget]
  rfl

/-! ## Extents in sized trees -/

/-- Some length lies in each extent that the plan has for a group. -/
def NotesValid (plan : SizingPlan) : Prop :=
  ∀ ⦃id extent⦄, plan.group? id = some extent → extent.Valid

/-- Sizing keeps extents in which some length lies. -/
theorem sizesTo_valid (hvalid : ∀ node ∈ tree.visible, node.extent.Valid) :
    SizesTo caps (fun _ result ↦ ∀ node ∈ result.visible, node.extent.Valid)
      NotesValid tree := by
  induction tree with
  | empty => exact fun target plan hplan ↦ ⟨hvalid, hplan⟩
  | literal text ignoreCase => exact fun target plan hplan ↦ ⟨hvalid, hplan⟩
  | set members => exact fun target plan hplan ↦ ⟨hvalid, hplan⟩
  | sequence parts ih =>
    rw [forall_visible_sequence] at hvalid
    intro target plan hplan
    obtain ⟨hresults, hafter⟩ := resizeParts_related
      (fun part hpart ↦ ih part hpart (hvalid.2 part hpart))
        (length_splitTarget_extents parts target) hplan
    have hall (result : Regex) (hresult : result ∈ _) :
        ∀ node ∈ result.visible, node.extent.Valid :=
      (exists_of_forall₂ hresults hresult).elim fun _ h ↦ h.2
    exact ⟨forall_visible_sequence.2 ⟨valid_sequence fun result hresult ↦
      hall result hresult result (mem_visible_self result), hall⟩, hafter⟩
  | choice options ih =>
    rw [forall_visible_choice] at hvalid
    intro target plan hplan
    obtain ⟨hresults, hafter⟩ := resizeOptions_related
      (fun option hoption ↦ ih option hoption (hvalid.2 option hoption))
      (max target (choice options).minLength) target hplan
    have hall (result : Regex) (hresult : result ∈ _) :
        ∀ node ∈ result.visible, node.extent.Valid :=
      (exists_of_forall₂ hresults hresult).elim fun _ h ↦ h.2
    exact ⟨forall_visible_choice.2 ⟨valid_choice fun result hresult ↦
      hall result hresult result (mem_visible_self result), hall⟩, hafter⟩
  | repetition body least most mode ih =>
    rw [forall_visible_repetition] at hvalid
    intro target plan hplan
    obtain ⟨hresult, hafter⟩ := ih hvalid.2 hplan
    exact ⟨forall_visible_repetition.2
      ⟨valid_repeated (hresult _ (mem_visible_self _)) least _ mode, hresult⟩, hafter⟩
  | group kind body ih =>
    rw [forall_visible_group] at hvalid
    cases kind with
    | capturing number name =>
      intro target plan hplan
      obtain ⟨hresult, hafter⟩ := ih (hvalid.2 rfl) hplan
      have hbody := hresult _ (mem_visible_self _)
      rw [resize_capturing]
      refine ⟨forall_visible_group.2 ⟨hbody, fun _ ↦ hresult⟩,
        fun id extent hfound ↦ ?_⟩
      rw [SizingPlan.group?_noteGroups] at hfound
      split at hfound
      · cases hfound
        exact hbody
      · exact hafter hfound
    | plain =>
      intro target plan hplan
      obtain ⟨hresult, hafter⟩ := ih (hvalid.2 rfl) hplan
      have hbody := hresult _ (mem_visible_self _)
      exact ⟨forall_visible_group.2 ⟨hbody, fun _ ↦ hresult⟩, hafter⟩
    | atomic =>
      intro target plan hplan
      obtain ⟨hresult, hafter⟩ := ih (hvalid.2 rfl) hplan
      have hbody := hresult _ (mem_visible_self _)
      exact ⟨forall_visible_group.2 ⟨hbody, fun _ ↦ hresult⟩, hafter⟩
    | lookahead negated =>
      exact fun target plan hplan ↦
        ⟨forall_visible_group.2 ⟨hvalid.1, fun hkind ↦ nomatch hkind⟩, hplan⟩
    | lookbehind negated =>
      exact fun target plan hplan ↦
        ⟨forall_visible_group.2 ⟨hvalid.1, fun hkind ↦ nomatch hkind⟩, hplan⟩
  | backref id extent =>
    intro target plan hplan
    refine ⟨List.forall_mem_singleton.2 ?_, hplan⟩
    show ((plan.group? id).getD extent).Valid
    cases hnoted : plan.group? id with
    | none => exact hvalid _ (mem_visible_self _)
    | some noted => exact hplan hnoted

/-- Some length lies in every extent in a sized tree when some length lies in every extent in the
tree. -/
theorem valid_sized (hvalid : ∀ node ∈ tree.visible, node.extent.Valid) (target : Nat) :
    ∀ node ∈ (tree.sized target).visible, node.extent.Valid := by
  have hempty : NotesValid {} := by
    intro id extent hfound
    cases hfound
  exact (sizesTo_valid hvalid hempty).1

end Exemplar.Regex
