import Exemplar.Proofs.Grammar.References
import Exemplar.Proofs.Regex.Summary

/-!
# What the check of references computes

The check of a tree only depends on two lists: the references that need a group in front of the
tree, and the references whose groups have certainly captured behind it (`Certainty`). Both make up
a summary of the tree, so rewriting a tree only makes it need less and leave more. A tree that fits
its groups passes the check just when it needs no group in front of it (`Groups.check_eq_ok_iff`).
-/

namespace Exemplar

/-- What a tree needs of the groups in front of it, and what it leaves for what comes behind.
`needed` lists the references to groups that have to capture in front of the tree, and `certain`
those to groups that have captured behind it, whatever choices are drawn. -/
structure Certainty where
  needed : List GroupId
  certain : List GroupId
  deriving DecidableEq, Repr

namespace Certainty

/-- A group in front leaves what is needed behind it, an option leaves only what the others leave
too, a repetition that may have no copies leaves nothing, and an assertion neither needs nor leaves
anything. -/
def summary : Summary Certainty where
  nothing := ⟨[], []⟩
  andThen first next :=
    ⟨first.needed ++ next.needed.filter (· ∉ first.certain), first.certain ++ next.certain⟩
  orElse first next := ⟨first.needed ++ next.needed, first.certain.filter (· ∈ next.certain)⟩
  copies least _ body := ⟨body.needed, if least = 0 then [] else body.certain⟩
  inside
    | .capturing number name, body => ⟨body.needed, groupIds number name ++ body.certain⟩
    | kind, body => if kind.isLookaround then ⟨[], []⟩ else body
  reference id := ⟨[id], []⟩

/-- To need no more and to leave no less. -/
structure Le (lower upper : Certainty) : Prop where
  needed : lower.needed ⊆ upper.needed
  certain : upper.certain ⊆ lower.certain

/-- Rewriting a tree makes it need less and leave more. -/
theorem lawful_summary : summary.Lawful Le where
  refl _ := ⟨List.Subset.refl _, List.Subset.refl _⟩
  trans h h' :=
    ⟨List.Subset.trans h.needed h'.needed, List.Subset.trans h'.certain h.certain⟩
  andThen {part part' next next'} h h' := by
    refine ⟨List.append_subset.2 ⟨?_, fun id hid ↦ ?_⟩, ?_⟩
    · exact List.Subset.trans h.needed (List.subset_append_left ..)
    · obtain ⟨hnext, hnone⟩ := List.mem_filter.1 hid
      refine List.mem_append_right _ (List.mem_filter.2 ⟨h'.needed hnext, ?_⟩)
      simp only [decide_eq_true_eq] at hnone ⊢
      exact fun hcertain ↦ hnone (h.certain hcertain)
    · exact List.append_subset.2 ⟨List.Subset.trans h.certain (List.subset_append_left ..),
        List.Subset.trans h'.certain (List.subset_append_right ..)⟩
  orElse {option option' next next'} h h' := by
    refine ⟨List.append_subset.2 ⟨?_, ?_⟩, fun id hid ↦ ?_⟩
    · exact List.Subset.trans h.needed (List.subset_append_left ..)
    · exact List.Subset.trans h'.needed (List.subset_append_right ..)
    · obtain ⟨hfirst, hnext⟩ := List.mem_filter.1 hid
      refine List.mem_filter.2 ⟨h.certain hfirst, ?_⟩
      simp only [decide_eq_true_eq] at hnext ⊢
      exact h'.certain hnext
  copies {least most body body'} h := by
    refine ⟨h.needed, ?_⟩
    show (if least = 0 then [] else body'.certain) ⊆ if least = 0 then [] else body.certain
    split
    · exact List.Subset.refl _
    · exact h.certain
  inside {kind body body'} h := by
    cases kind with
    | capturing number name =>
      exact ⟨h.needed, List.append_subset.2 ⟨List.subset_append_left ..,
        List.Subset.trans h.certain (List.subset_append_right ..)⟩⟩
    | plain => exact h
    | atomic => exact h
    | lookahead negated => exact ⟨List.Subset.refl _, List.Subset.refl _⟩
    | lookbehind negated => exact ⟨List.Subset.refl _, List.Subset.refl _⟩
  nothing_andThen part := by simp [summary]
  andThen_nothing part := by simp [summary]
  andThen_assoc part next last := by simp [summary, List.filter_filter]
  orElse_assoc option next last := by simp [summary, List.filter_filter, Bool.and_comm]
  le_orElse_left option next := ⟨List.subset_append_left .., List.filter_subset_self _⟩
  le_orElse_right option next := by
    refine ⟨List.subset_append_right .., fun id hid ↦ ?_⟩
    simpa using (List.mem_filter.1 hid).2
  nothing_le_copies most body := ⟨List.nil_subset _, List.Subset.refl _⟩
  copies_nothing least most := by simp [summary]
  copies_one body := rfl
  inside_plain body := rfl

end Certainty

/-- What a tree needs and what it leaves. -/
def Regex.certainty (tree : Regex) : Certainty :=
  tree.summarize Certainty.summary

namespace Groups

/-- The reference leads to a group that has captured. -/
def HasCaptured (groups : Groups) (captured : List Nat) (id : GroupId) : Prop :=
  ∃ number ∈ captured, groups.number? id = some number

variable {groups : Groups} {captured : List Nat} {id : GroupId}

/-- Before anything was captured, no reference leads to a group that has captured. -/
theorem not_hasCaptured_nil : ¬ groups.HasCaptured [] id := by
  rintro ⟨number, hnumber, -⟩
  cases hnumber

/-- The check of a reference asks whether its group has captured. -/
theorem any_number?_iff :
    (groups.number? id).any (captured.contains ·) = true ↔ groups.HasCaptured captured id := by
  cases hnumber : groups.number? id <;> simp [HasCaptured, hnumber]

/-- One more group has captured. -/
theorem hasCaptured_cons {number : Nat} {name : Option String} (h : groups.Names number name) :
    groups.HasCaptured (number :: captured) id ↔
      id ∈ groupIds number name ∨ groups.HasCaptured captured id := by
  simp [HasCaptured, h.number?_eq_iff]

/-- Of the groups of two lists, those have captured that are in both. -/
theorem hasCaptured_filter {others : List Nat} :
    groups.HasCaptured (captured.filter (others.contains ·)) id ↔
      groups.HasCaptured captured id ∧ groups.HasCaptured others id := by
  constructor
  · rintro ⟨number, hnumber, hid⟩
    obtain ⟨hcaptured, hothers⟩ := List.mem_filter.1 hnumber
    exact ⟨⟨number, hcaptured, hid⟩, ⟨number, by simpa using hothers, hid⟩⟩
  · rintro ⟨⟨number, hcaptured, hid⟩, ⟨other, hother, hid'⟩⟩
    obtain rfl := Option.some.inj (hid.symm.trans hid')
    exact ⟨number, List.mem_filter.2 ⟨hcaptured, by simpa using hother⟩, hid⟩

end Groups

namespace ReferenceCheck

/-- A check succeeds just when the groups that are needed have captured, and then it adds those
that are certain. -/
structure Agrees (groups : Groups) (check : List Nat → ReferenceCheck (List Nat))
    (certainty : Certainty) : Prop where
  complete {captured : List Nat} (positions : List Nat) :
    (∀ id ∈ certainty.needed, groups.HasCaptured captured id) →
      ∃ after rest, (check captured).run positions = .ok (after, rest)
  needed {captured positions after rest : List Nat} :
    (check captured).run positions = .ok (after, rest) →
      ∀ id ∈ certainty.needed, groups.HasCaptured captured id
  certain {captured positions after rest : List Nat} :
    (check captured).run positions = .ok (after, rest) →
      ∀ id, groups.HasCaptured after id ↔
        groups.HasCaptured captured id ∨ id ∈ certainty.certain

namespace Agrees

variable {groups : Groups} {check first next : List Nat → ReferenceCheck (List Nat)}
  {certainty start last : Certainty}

/-- A check that finds nothing needs nothing and adds nothing. -/
theorem pure (groups : Groups) : Agrees groups (fun captured ↦ pure captured) ⟨[], []⟩ where
  complete positions _ := ⟨_, positions, rfl⟩
  needed _ id hid := by cases hid
  certain h id := by
    obtain ⟨rfl, -⟩ := pure_run_eq_ok.1 h
    simp

/-- One check and then another. -/
theorem andThen (h : Agrees groups first start) (h' : Agrees groups next last) :
    Agrees groups (fun captured ↦ first captured >>= next)
      (Certainty.summary.andThen start last) where
  complete {captured} positions hneeded := by
    have hstart : ∀ id ∈ start.needed, groups.HasCaptured captured id :=
      fun id hid ↦ hneeded id (List.mem_append_left _ hid)
    obtain ⟨middle, between, hfirst⟩ := h.complete positions hstart
    have hlast : ∀ id ∈ last.needed, groups.HasCaptured middle id := by
      intro id hid
      rw [h.certain hfirst]
      by_cases hcertain : id ∈ start.certain
      · exact .inr hcertain
      · exact .inl (hneeded id (List.mem_append_right _
          (List.mem_filter.2 ⟨hid, by simpa using hcertain⟩)))
    obtain ⟨after, rest, hnext⟩ := h'.complete between hlast
    exact ⟨after, rest, bind_run_eq_ok.2 ⟨middle, between, hfirst, hnext⟩⟩
  needed hrun id hid := by
    obtain ⟨middle, between, hfirst, hnext⟩ := bind_run_eq_ok.1 hrun
    rcases List.mem_append.1 hid with hid | hid
    · exact h.needed hfirst id hid
    · obtain ⟨hid, hnone⟩ := List.mem_filter.1 hid
      exact ((h.certain hfirst id).1 (h'.needed hnext id hid)).resolve_right (by simpa using hnone)
  certain hrun id := by
    obtain ⟨middle, between, hfirst, hnext⟩ := bind_run_eq_ok.1 hrun
    rw [h'.certain hnext, h.certain hfirst, or_assoc, ← List.mem_append]
    rfl

/-- Two checks from the same start, of which only what both leave is kept. -/
theorem orElse (h : Agrees groups first start) (h' : Agrees groups next last) :
    Agrees groups
      (fun captured ↦ do
        let after ← first captured
        let after' ← next captured
        return after.filter (after'.contains ·))
      (Certainty.summary.orElse start last) where
  complete {captured} positions hneeded := by
    have hstart : ∀ id ∈ start.needed, groups.HasCaptured captured id :=
      fun id hid ↦ hneeded id (List.mem_append_left _ hid)
    have hlast : ∀ id ∈ last.needed, groups.HasCaptured captured id :=
      fun id hid ↦ hneeded id (List.mem_append_right _ hid)
    obtain ⟨after, between, hfirst⟩ := h.complete positions hstart
    obtain ⟨after', rest, hnext⟩ := h'.complete between hlast
    exact ⟨_, rest, bind_run_eq_ok.2 ⟨after, between, hfirst,
      bind_run_eq_ok.2 ⟨after', rest, hnext, rfl⟩⟩⟩
  needed hrun id hid := by
    obtain ⟨after, between, hfirst, hrun⟩ := bind_run_eq_ok.1 hrun
    obtain ⟨after', rest, hnext, -⟩ := bind_run_eq_ok.1 hrun
    rcases List.mem_append.1 hid with hid | hid
    · exact h.needed hfirst id hid
    · exact h'.needed hnext id hid
  certain hrun id := by
    obtain ⟨after, between, hfirst, hrun⟩ := bind_run_eq_ok.1 hrun
    obtain ⟨after', rest, hnext, hrun⟩ := bind_run_eq_ok.1 hrun
    obtain ⟨rfl, -⟩ := pure_run_eq_ok.1 hrun
    have hboth : id ∈ (Certainty.summary.orElse start last).certain ↔
        id ∈ start.certain ∧ id ∈ last.certain := by
      show id ∈ start.certain.filter (· ∈ last.certain) ↔ _
      rw [List.mem_filter, decide_eq_true_eq]
    rw [Groups.hasCaptured_filter, h.certain hfirst, h'.certain hnext, hboth, or_and_left]

/-- A check of which something is done with the groups behind it. -/
theorem change (h : Agrees groups check start) (change : List Nat → List Nat → List Nat)
    (hneeded : certainty.needed = start.needed)
    (hchange : ∀ captured after, (∀ id, groups.HasCaptured after id ↔
        groups.HasCaptured captured id ∨ id ∈ start.certain) →
      ∀ id, groups.HasCaptured (change captured after) id ↔
        groups.HasCaptured captured id ∨ id ∈ certainty.certain) :
    Agrees groups
      (fun captured ↦ do
        let after ← check captured
        return change captured after)
      certainty where
  complete positions hcaptured := by
    obtain ⟨after, rest, hrun⟩ := h.complete positions (hneeded ▸ hcaptured)
    exact ⟨_, rest, bind_run_eq_ok.2 ⟨after, rest, hrun, rfl⟩⟩
  needed hrun := by
    obtain ⟨after, between, hcheck, -⟩ := bind_run_eq_ok.1 hrun
    rw [hneeded]
    exact h.needed hcheck
  certain hrun := by
    obtain ⟨after, between, hcheck, hrun⟩ := bind_run_eq_ok.1 hrun
    obtain ⟨rfl, -⟩ := pure_run_eq_ok.1 hrun
    exact hchange _ _ (h.certain hcheck)

end Agrees

variable {groups : Groups}

/-- The check of the parts of a sequence agrees when the checks of the parts do. -/
theorem certainAfter_agrees {parts : List Regex}
    (h : ∀ part ∈ parts, Agrees groups (certain groups part) part.certainty) :
    Agrees groups (certainAfter groups parts) (Regex.sequence parts).certainty := by
  rw [Regex.certainty, Regex.summarize, Regex.summarizeAll_eq_map]
  induction parts with
  | nil => exact .pure groups
  | cons part parts ih =>
    obtain ⟨hpart, hparts⟩ := List.forall_mem_cons.1 h
    exact hpart.andThen (ih hparts)

/-- The check of several options agrees when the checks of the options do. -/
theorem certainOfAny_agrees {options : List Regex}
    (h : ∀ option ∈ options, Agrees groups (certain groups option) option.certainty) :
    Agrees groups (certainOfAny groups options) (Regex.choice options).certainty := by
  rw [Regex.certainty, Regex.summarize, Regex.summarizeAll_eq_map]
  induction options with
  | nil => exact .pure groups
  | cons option options ih =>
    obtain ⟨hoption, hoptions⟩ := List.forall_mem_cons.1 h
    cases options with
    | nil => exact hoption
    | cons next options => exact hoption.orElse (ih hoptions)

/-- The check of an assertion needs nothing and adds nothing. -/
theorem assertion_agrees {kind : GroupKind} (hkind : kind.isLookaround = true) (body : Regex) :
    Agrees groups (certain groups (.group kind body)) ⟨[], []⟩ where
  complete positions _ := ⟨_, _, certain_assertion_run hkind body _ positions⟩
  needed _ id hid := by cases hid
  certain hrun id := by
    rw [certain_assertion_run hkind] at hrun
    cases hrun
    exact (or_iff_left List.not_mem_nil).symm

/-- The check of a reference needs its group and adds nothing. -/
theorem backref_agrees (id : GroupId) (extent : Extent) :
    Agrees groups (certain groups (.backref id extent)) ⟨[id], []⟩ where
  complete {captured} positions hneeded := by
    refine ⟨captured, positions.drop 1, ?_⟩
    rw [certain_backref_run, if_pos (Groups.any_number?_iff.2 (hneeded id List.mem_cons_self))]
  needed hrun other hother := by
    cases List.mem_singleton.1 hother
    rw [certain_backref_run] at hrun
    split at hrun
    · rename_i hany
      exact Groups.any_number?_iff.1 hany
    · cases hrun
  certain hrun other := by
    rw [certain_backref_run] at hrun
    split at hrun
    · cases hrun
      exact (or_iff_left List.not_mem_nil).symm
    · cases hrun

/-- The check of a tree that fits the groups agrees with what the tree needs and what it leaves. -/
theorem agrees {tree : Regex} (hfits : tree.Everywhere groups.Fits) :
    Agrees groups (certain groups tree) tree.certainty := by
  induction tree with
  | empty => exact .pure groups
  | literal text ignoreCase => exact .pure groups
  | set members => exact .pure groups
  | sequence parts ih =>
    have hparts := (Regex.everywhere_sequence.1 hfits).2
    exact certainAfter_agrees fun part hpart ↦ ih part hpart (hparts part hpart)
  | choice options ih =>
    have hoptions := (Regex.everywhere_choice.1 hfits).2
    exact certainOfAny_agrees fun option hoption ↦ ih option hoption (hoptions option hoption)
  | repetition body least most mode ih =>
    have hbody := (Regex.everywhere_repetition.1 hfits).2
    refine (ih hbody).change (fun captured after ↦ if least = 0 then captured else after) rfl
      fun captured after hafter id ↦ ?_
    have hcertain : (Regex.repetition body least most mode).certainty.certain =
        if least = 0 then [] else body.certainty.certain := rfl
    rw [hcertain]
    split
    · simp
    · exact hafter id
  | group kind body ih =>
    obtain ⟨hkind, hbody⟩ := Regex.everywhere_group.1 hfits
    cases kind with
    | capturing number name =>
      refine (ih hbody).change (fun _ after ↦ number :: after) rfl
        fun captured after hafter id ↦ ?_
      have hcertain : (Regex.group (.capturing number name) body).certainty.certain =
          groupIds number name ++ body.certainty.certain := rfl
      rw [Groups.hasCaptured_cons hkind.1, hafter id, hcertain, List.mem_append, or_left_comm]
    | plain => exact ih hbody
    | atomic => exact ih hbody
    | lookahead negated => exact assertion_agrees rfl body
    | lookbehind negated => exact assertion_agrees rfl body
  | backref id extent => exact backref_agrees id extent

end ReferenceCheck

/-- A tree that fits its groups passes the check just when it needs no group in front of it. -/
theorem Groups.check_eq_ok_iff {groups : Groups} {tree : Regex}
    (hfits : tree.Everywhere groups.Fits) :
    groups.check tree = .ok () ↔ tree.certainty.needed = [] := by
  have hagrees := ReferenceCheck.agrees hfits
  have hrun : groups.check tree = .ok () ↔
      ∃ after rest, (ReferenceCheck.certain groups tree []).run groups.references.reverse =
        .ok (after, rest) := by
    rw [check]
    cases (ReferenceCheck.certain groups tree []).run groups.references.reverse with
    | error located => simp [bind, Except.bind]
    | ok outcome => exact ⟨fun _ ↦ ⟨outcome.1, outcome.2, rfl⟩, fun _ ↦ rfl⟩
  rw [hrun, List.eq_nil_iff_forall_not_mem]
  constructor
  · rintro ⟨after, rest, hrun⟩ id hid
    exact not_hasCaptured_nil (hagrees.needed hrun id hid)
  · intro hnone
    exact hagrees.complete _ fun id hid ↦ absurd hid (hnone id)

/-- A tree that is read, that needs no group in front of it and of which nothing is impossible is
accepted. -/
theorem Regex.parse_of_run {pattern : List Char} {flags : Flags} {tree : Regex} {groups : Groups}
    (hliteral : flags.literal = false)
    (hrun : (Reading.start pattern flags).run = .ok (tree, groups))
    (hneeded : tree.certainty.needed = []) (hpossible : tree.Possible) :
    parse pattern flags = .ok tree := by
  have hcheck : groups.check tree = .ok () :=
    (Groups.check_eq_ok_iff ((Reading.Sound.start pattern flags).run hrun)).2 hneeded
  rw [parse, hliteral, hrun]
  simp only [bind, Except.bind, hcheck, hpossible.prune]
  rfl

/-- Pruning and simplification leave nothing needed in front of a tree that was accepted. -/
theorem Regex.needed_simplify_of_parse {pattern : List Char} {flags : Flags} {tree : Regex}
    (h : parse pattern flags = .ok tree) : tree.simplify.certainty.needed = [] := by
  rcases parse_eq_ok h with rfl | ⟨read, groups, hrun, hcheck, hprune⟩
  · cases pattern <;> rfl
  · have hread := (Reading.Sound.start pattern flags).run hrun
    have hneeded := (Groups.check_eq_ok_iff hread).1 hcheck
    have hwell := groups.stable_fits.wellFormed hread
    have hpruned := groups.stable_fits.wellFormed (groups.stable_fits.prune hread hprune).1
    have hsubset := (Certainty.lawful_summary.trans
      (summarize_simplify_le Certainty.lawful_summary hpruned)
      (summarize_prune_le Certainty.lawful_summary hwell hprune)).needed
    exact List.subset_nil.1 (hneeded ▸ hsubset)

end Exemplar
